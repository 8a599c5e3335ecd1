import Scriptlet.Text.Ranges

/-!
# Parts of syllables

In Korean, and for some vowels of Kirat Rai, the letters of a syllable are written
as one block. A syllable is made of leading consonants, vowels and trailing
consonants; 11172 Hangul syllables are also characters themselves, 28 for each
leading consonant and vowel, the first of the 28 being the one that has no
trailing consonant yet.
-/

namespace Scriptlet.Text

/-- The code points of leading consonants. -/
def leadingRanges : List (Nat × Nat) :=
  [(0x1100, 0x115f), (0xa960, 0xa97c)]

/-- The code points of vowels. -/
def vowelRanges : List (Nat × Nat) :=
  [(0x1160, 0x11a7), (0xd7b0, 0xd7c6), (0x16d63, 0x16d63), (0x16d67, 0x16d6a)]

/-- The code points of trailing consonants. -/
def trailingRanges : List (Nat × Nat) :=
  [(0x11a8, 0x11ff), (0xd7cb, 0xd7fb)]

/-- The code points of whole syllables. -/
def syllableRanges : List (Nat × Nat) :=
  [(0xac00, 0xd7a3)]

/-- Whether `c` is a leading consonant. -/
def isLeading (c : Char) : Bool :=
  inRanges leadingRanges c

/-- Whether `c` is a vowel of a syllable. -/
def isVowel (c : Char) : Bool :=
  inRanges vowelRanges c

/-- Whether `c` is a trailing consonant. -/
def isTrailing (c : Char) : Bool :=
  inRanges trailingRanges c

/-- Whether `c` is a whole syllable. -/
def isSyllable (c : Char) : Bool :=
  inRanges syllableRanges c

/-- Whether the whole syllable `c` ends in a vowel. -/
def isOpenSyllable (c : Char) : Bool :=
  isSyllable c && (c.toNat - 0xac00) % 28 == 0

end Scriptlet.Text
