import Scriptlet.Text.Conjunct
import Scriptlet.Text.Extending
import Scriptlet.Text.Pictograph
import Scriptlet.Text.SpacingMark
import Scriptlet.Text.Syllable

/-!
# Clusters

What a reader sees as one character can be several: a letter with its accents, a
syllable block, a conjunct, a flag, a family of pictographs. `clusters` splits a
text into such extended grapheme clusters. Whether a cluster goes on with the next
character is decided from the `Role` of that character and from a `Context`, which
keeps what matters of the characters before it.

* `flatten_clusters`: splitting loses nothing;
* `ne_nil_of_mem_clusters`: no cluster is empty.
-/

namespace Scriptlet.Text

/-- The code points of controls, which stand alone. -/
def controlRanges : List (Nat × Nat) :=
  [(0x0, 0x1f), (0x7f, 0x9f), (0xad, 0xad), (0x61c, 0x61c), (0x180e, 0x180e), (0x200b, 0x200b),
   (0x200e, 0x200f), (0x2028, 0x202e), (0x2060, 0x206f), (0xfeff, 0xfeff), (0xfff0, 0xfffb),
   (0x13430, 0x1343f), (0x1bca0, 0x1bca3), (0x1d173, 0x1d17a), (0xe0000, 0xe001f),
   (0xe0080, 0xe00ff), (0xe01f0, 0xe0fff)]

/-- The code points of signs that belong to the character after them. -/
def prependedRanges : List (Nat × Nat) :=
  [(0x600, 0x605), (0x6dd, 0x6dd), (0x70f, 0x70f), (0x890, 0x891), (0x8e2, 0x8e2),
   (0xd4e, 0xd4e), (0x110bd, 0x110bd), (0x110cd, 0x110cd), (0x111c2, 0x111c3),
   (0x113d1, 0x113d1), (0x1193f, 0x1193f), (0x11941, 0x11941), (0x11a84, 0x11a89),
   (0x11d46, 0x11d46), (0x11f02, 0x11f02)]

/-- The code points of regional indicators, two of which make a flag. -/
def regionalRanges : List (Nat × Nat) :=
  [(0x1f1e6, 0x1f1ff)]

/-- The code points of skin tones, which extend the pictograph before them. -/
def skinToneRanges : List (Nat × Nat) :=
  [(0x1f3fb, 0x1f3ff)]

/-- How a character takes part in a cluster. -/
inductive Role where
  | carriageReturn
  | lineFeed
  | control
  /-- Belongs to the character before it. -/
  | extending
  /-- Extends, and joins the consonants around it. -/
  | linker
  /-- Extends, and keeps the consonants around it apart. -/
  | nonJoiner
  /-- Extends, and joins the pictographs around it. -/
  | joiner
  | spacingMark
  /-- Belongs to the character after it. -/
  | prepended
  | regional
  | leading
  | vowel
  | trailing
  | openSyllable
  | closedSyllable
  | pictograph
  | consonant
  /-- Any other character. -/
  | plain
  deriving DecidableEq, Repr

/-- The role of a character. -/
def roleOf (c : Char) : Role :=
  if c = '\r' then .carriageReturn
  else if c = '\n' then .lineFeed
  else if inRanges controlRanges c then .control
  else if c.toNat = 0x200c then .nonJoiner
  else if c.toNat = 0x200d then .joiner
  else if isLinker c then .linker
  else if isExtending c || inRanges skinToneRanges c then .extending
  else if isSpacingMark c then .spacingMark
  else if inRanges prependedRanges c then .prepended
  else if inRanges regionalRanges c then .regional
  else if isLeading c then .leading
  else if isVowel c then .vowel
  else if isTrailing c then .trailing
  else if isOpenSyllable c then .openSyllable
  else if isSyllable c then .closedSyllable
  else if isPictograph c then .pictograph
  else if isConsonant c then .consonant
  else .plain

namespace Role

/-- Whether there is a break on both sides, other than between the two halves of a line end. -/
def standsAlone : Role → Bool
  | .carriageReturn | .lineFeed | .control => true
  | _ => false

/-- Whether the character belongs to the one before it, whatever that is. -/
def attaches : Role → Bool
  | .extending | .linker | .nonJoiner | .joiner | .spacingMark => true
  | _ => false

/-- Whether a syllable that has come to the first character goes on with the second. -/
def continuesSyllable : Role → Role → Bool
  | .leading, .leading | .leading, .vowel | .leading, .openSyllable | .leading, .closedSyllable =>
    true
  | .vowel, .vowel | .vowel, .trailing => true
  | .openSyllable, .vowel | .openSyllable, .trailing => true
  | .trailing, .trailing | .closedSyllable, .trailing => true
  | _, _ => false

end Role

/-- What the end of a text waits for, so as to go on with the cluster. -/
inductive Awaiting where
  /-- Nothing in particular. -/
  | nothing
  /-- The second regional indicator of a flag. -/
  | regional
  /-- After a pictograph and what extends it: a joiner. -/
  | joiner
  /-- After a pictograph and a joiner: one more pictograph. -/
  | pictograph
  /-- After a consonant: a linker. -/
  | linker
  /-- After a consonant and a linker: one more consonant. -/
  | consonant
  deriving DecidableEq, Repr

/-- What a text waits for after one more character. -/
def Awaiting.next (a : Awaiting) (r : Role) : Awaiting :=
  match r with
  | .regional => if a = .regional then .nothing else .regional
  | .pictograph => .joiner
  | .consonant => .linker
  | .extending => if a = .joiner || a = .linker || a = .consonant then a else .nothing
  | .nonJoiner => if a = .joiner then .joiner else .nothing
  | .linker =>
    if a = .joiner then .joiner
    else if a = .linker || a = .consonant then .consonant
    else .nothing
  | .joiner =>
    if a = .joiner then .pictograph
    else if a = .linker || a = .consonant then a
    else .nothing
  | _ => .nothing

/-- What matters of a text for how its last cluster goes on. -/
structure Context where
  /-- The role of the last character. -/
  last : Role
  awaiting : Awaiting

namespace Context

/-- The context after one character. -/
def start (r : Role) : Context :=
  ⟨r, Awaiting.nothing.next r⟩

/-- The context after one more character. -/
def next (x : Context) (r : Role) : Context :=
  ⟨r, x.awaiting.next r⟩

/-- Whether a character of role `r` belongs to the cluster before it. -/
def joins (x : Context) (r : Role) : Bool :=
  if x.last.standsAlone || r.standsAlone then x.last = .carriageReturn && r = .lineFeed
  else
    r.attaches || x.last = .prepended || x.last.continuesSyllable r ||
      (x.awaiting = .regional && r = .regional) ||
      (x.awaiting = .pictograph && r = .pictograph) ||
      (x.awaiting = .consonant && r = .consonant)

end Context

/-- The characters that still belong to a cluster, and the clusters after it. -/
def clustersAfter (x : Context) : List Char → List Char × List (List Char)
  | [] => ([], [])
  | c :: rest =>
    let r := roleOf c
    let (same, more) := clustersAfter (x.next r) rest
    if x.joins r then (c :: same, more) else ([], (c :: same) :: more)

/-- The clusters of a text. -/
def clusters : List Char → List (List Char)
  | [] => []
  | c :: rest =>
    let (same, more) := clustersAfter (.start (roleOf c)) rest
    (c :: same) :: more

theorem clustersAfter_append (x : Context) (cs : List Char) :
    (clustersAfter x cs).1 ++ (clustersAfter x cs).2.flatten = cs := by
  induction cs generalizing x with
  | nil => rfl
  | cons c rest ih =>
    have h := ih (x.next (roleOf c))
    simp only [clustersAfter]
    split <;> simpa using h

/-- The clusters of a text, one after the other, are the text. -/
theorem flatten_clusters (cs : List Char) : (clusters cs).flatten = cs := by
  cases cs with
  | nil => rfl
  | cons c rest => simpa [clusters] using clustersAfter_append _ rest

theorem ne_nil_of_mem_clustersAfter {x : Context} {cs k : List Char}
    (h : k ∈ (clustersAfter x cs).2) : k ≠ [] := by
  induction cs generalizing x with
  | nil => simp [clustersAfter] at h
  | cons c rest ih =>
    simp only [clustersAfter] at h
    split at h
    · exact ih h
    · rcases List.mem_cons.mp h with rfl | h
      · exact List.cons_ne_nil _ _
      · exact ih h

/-- No cluster is empty. -/
theorem ne_nil_of_mem_clusters {cs k : List Char} (h : k ∈ clusters cs) : k ≠ [] := by
  cases cs with
  | nil => simp [clusters] at h
  | cons c rest =>
    rcases List.mem_cons.mp h with rfl | h
    · exact List.cons_ne_nil _ _
    · exact ne_nil_of_mem_clustersAfter h

end Scriptlet.Text
