import Mathlib.Data.String.Basic
import Parley.Proofs.Text.Decomposition

/-!
# Groups as slices of the stored text

A text is stored in UTF-8, where a character takes up to four bytes, and a group is a slice of it
between two byte offsets. Here the splitter is written down as it walks through the stored text,
with a counter of open brackets and the offset where the outermost of them was opened. Each of its
steps may be a misstep: an offset may lie inside a character, and a counter may leave its range.
There are no missteps, and the slices are the groups.

## Key results

- `slice?_eq_ok`: between two parts of a text, a slice can be taken
- `Scan.Follows.next`: what a step keeps up between the walk and the characters behind it
- `groups?_eq_ok`: the walk takes no misstep, and it finds the groups
- `utf8Len_of_mem_groups`: a group takes fewer bytes than the text
-/

namespace Parley

/-- A step that means nothing, so that a program that takes it cannot go on. -/
inductive Misstep where
  /-- A slice ends before it begins, or one of its ends lies inside a character. -/
  | slice (start stop : Nat)
  /-- A counter goes below zero. -/
  | underflow
  /-- A counter goes beyond its bound. -/
  | overflow (bound : Nat)
  /-- The first operand is asked for where there are none. -/
  | noOperand
  /-- A text is compiled as part of one that is no longer than it. -/
  | notShorter
deriving DecidableEq, Repr

/-- A counter after one more, within its bound. -/
def increment? (bound n : Nat) : Except Misstep Nat :=
  if n < bound then .ok (n + 1) else .error (.overflow bound)

/-- A counter after one less. -/
def decrement? : Nat → Except Misstep Nat
  | 0 => .error .underflow
  | n + 1 => .ok n

namespace Text

/-- The slice of a stored text between two byte offsets. They must be in order, and characters must
begin or end there. -/
def slice? (source : String) (start stop : Nat) : Except Misstep String.Slice :=
  if h : start ≤ stop ∧ String.Pos.Raw.IsValid source ⟨start⟩ ∧ String.Pos.Raw.IsValid source ⟨stop⟩
  then
    .ok (source.slice (source.pos ⟨start⟩ h.2.1) (source.pos ⟨stop⟩ h.2.2)
      (String.Pos.le_iff.mpr (String.Pos.Raw.le_iff.mpr h.1)))
  else .error (.slice start stop)

/-- What the splitter remembers between two characters: how many brackets are open, at which offset
the interior of the outermost of them begins, and the groups that have been closed. -/
structure Scan where
  depth : Nat := 0
  start : Nat := 0
  slices : List String.Slice := []

/-- The texts of the groups that have been closed. -/
def Scan.texts (s : Scan) : List Text :=
  s.slices.map fun slice => slice.copy.toList

/-- One step of the splitter, over the character at an offset. -/
def Scan.next? (source : String) (offset : Nat) (c : Char) (s : Scan) : Except Misstep Scan :=
  if c = '(' then do
    let depth ← increment? source.utf8ByteSize s.depth
    return { s with depth, start := if s.depth = 0 then offset + 1 else s.start }
  else if c = ')' ∧ 0 < s.depth then do
    let depth ← decrement? s.depth
    if depth = 0 then
      let slice ← slice? source s.start offset
      return { s with depth, slices := s.slices ++ [slice] }
    else return { s with depth }
  else return s

/-- The walk of the splitter over the characters from an offset on. -/
def Scan.walk? (source : String) : (offset : Nat) → List Char → Scan → Except Misstep Scan
  | _, [], s => .ok s
  | offset, c :: t, s => do
    let s ← s.next? source offset c
    walk? source (offset + c.utf8Size) t s

/-- The groups of a text, taken as slices from where it is stored. -/
def groups? (t : Text) : Except Misstep (List Text) :=
  (Scan.walk? (String.ofList t) 0 t {}).map Scan.texts

/-! ### Slices -/

/-- Where one part of a text ends and the next one begins, there is a character boundary. -/
theorem isValid_append (front back : Text) :
    String.Pos.Raw.IsValid (String.ofList (front ++ back)) ⟨String.utf8Len front⟩ := by
  rw [String.Pos.Raw.isValid_iff_exists_append]
  exact ⟨String.ofList front, String.ofList back, String.ofList_append, by simp⟩

/-- The bytes of a part of a text are those between where it begins and where it ends. -/
theorem extract_toByteArray (front interior back : Text) :
    (String.ofList (front ++ interior ++ back)).toByteArray.extract (String.utf8Len front)
        (String.utf8Len (front ++ interior)) = (String.ofList interior).toByteArray := by
  -- the length of a text in bytes is the size of what is stored
  have hsize : ∀ t : Text, String.utf8Len t = (String.ofList t).toByteArray.size :=
    fun t => (String.utf8ByteSize_ofList t).symm
  rw [String.ofList_append, String.toByteArray_append, hsize (front ++ interior),
    ByteArray.extract_append_size_left, String.ofList_append, String.toByteArray_append]
  exact ByteArray.extract_append_eq_right (hsize front) ByteArray.size_append

/-- A slice has the bytes between its offsets. -/
theorem toByteArray_of_slice? {source : String} {start stop : Nat} {slice : String.Slice}
    (h : slice? source start stop = .ok slice) :
    slice.copy.toByteArray = source.toByteArray.extract start stop := by
  unfold slice? at h
  split at h
  · cases h
    rw [String.Slice.toByteArray_copy]
    simp only [String.startInclusive_slice, String.endExclusive_slice, String.offset_pos]
    rfl
  · exact nomatch h

/-- The part between two others can be sliced out. -/
theorem slice?_eq_ok (front interior back : Text) :
    ∃ slice, slice? (String.ofList (front ++ interior ++ back)) (String.utf8Len front)
        (String.utf8Len (front ++ interior)) = .ok slice ∧
      slice.copy.toList = interior := by
  -- the two offsets are in order, and both of them are boundaries
  have hle : String.utf8Len front ≤ String.utf8Len (front ++ interior) := by simp
  have hstart : String.Pos.Raw.IsValid (String.ofList (front ++ interior ++ back))
      ⟨String.utf8Len front⟩ := by
    rw [List.append_assoc]
    exact isValid_append front (interior ++ back)
  have hstop := isValid_append (front ++ interior) back
  obtain ⟨slice, hslice⟩ : ∃ slice, slice? (String.ofList (front ++ interior ++ back))
      (String.utf8Len front) (String.utf8Len (front ++ interior)) = .ok slice :=
    ⟨_, dif_pos ⟨hle, hstart, hstop⟩⟩
  have hbytes := toByteArray_of_slice? hslice
  rw [extract_toByteArray, String.toByteArray_inj] at hbytes
  exact ⟨slice, hslice, by rw [hbytes, String.toList_ofList]⟩

/-- A text that can be sliced out of another one where that is stored. -/
def IsSlice (part whole : Text) : Prop :=
  ∃ start stop slice, slice? (String.ofList whole) start stop = .ok slice ∧
    slice.copy.toList = part

/-- Whatever stands in a text is a slice of it. -/
theorem isSlice_of_infix {part whole : Text} (h : part <:+: whole) : part.IsSlice whole := by
  obtain ⟨front, back, rfl⟩ := h
  obtain ⟨slice, hslice, htext⟩ := slice?_eq_ok front part back
  exact ⟨_, _, slice, hslice, htext⟩

/-! ### The walk -/

namespace Scan

/-- The walk has come through the text `p`, and `seen` is the interior of the outermost open bracket
so far, last character first. -/
structure Follows (p seen : Text) (s : Scan) : Prop where
  depth_le : s.depth ≤ String.utf8Len p
  interior : 0 < s.depth → ∃ front, p = front ++ seen.reverse ∧ String.utf8Len front = s.start

/-- The groups that are found in the end if the splitter goes on from here. -/
def outcome (s : Scan) (seen rest : Text) : List Text :=
  s.texts ++ groupsFrom s.depth seen rest

/-- A character that does not end the outermost open bracket becomes part of its interior. -/
theorem Follows.inside {p seen : Text} {s s' : Scan} (h : s.Follows p seen) (hopen : 0 < s.depth)
    {c : Char} (hdepth : s'.depth ≤ s.depth + 1) (hstart : s'.start = s.start) :
    s'.Follows (p ++ [c]) (c :: seen) where
  depth_le := by
    -- one character more in the text is at least one byte more
    have hle := h.depth_le
    have hsize := Char.utf8Size_pos c
    simp
    omega
  interior := by
    obtain ⟨front, hp, hfront⟩ := h.interior hopen
    exact fun _ => ⟨front, by simp [hp], hfront.trans hstart.symm⟩

/-- Where no bracket is open, there is no interior to keep up with. -/
theorem follows_outside {p : Text} {s : Scan} (h : s.depth = 0) : s.Follows p [] where
  depth_le := by omega
  interior := by omega

variable {p seen : Text} {s : Scan}

/-- An opening bracket is counted, and the outermost one is remembered. -/
theorem Follows.next_open (h : s.Follows p seen) (rest : Text) :
    ∃ s' seen', s.next? (String.ofList (p ++ '(' :: rest)) (String.utf8Len p) '(' = .ok s' ∧
      s'.Follows (p ++ ['(']) seen' ∧ s'.outcome seen' rest = s.outcome seen ('(' :: rest) := by
  have hdepth := h.depth_le
  have hsize : '('.utf8Size = 1 := rfl
  -- fewer brackets are open than the text has bytes, as this one is still to be counted
  have hbound : s.depth < (String.ofList (p ++ '(' :: rest)).utf8ByteSize := by
    rw [String.utf8ByteSize_ofList]
    simp
    omega
  have hnext : s.next? (String.ofList (p ++ '(' :: rest)) (String.utf8Len p) '(' =
      .ok { s with
        depth := s.depth + 1
        start := if s.depth = 0 then String.utf8Len p + 1 else s.start } := by
    rw [next?, if_pos rfl, increment?, if_pos hbound]
    rfl
  cases hopen : s.depth with
  | zero =>
    -- the interior begins right behind the bracket
    refine ⟨_, [], hnext, ⟨?_, fun _ => ⟨p ++ ['('], by simp, ?_⟩⟩, ?_⟩
    · simp [hopen, hsize]
    · simp [hopen, hsize]
    · simp [outcome, texts, hopen, groupsFrom]
  | succ depth =>
    -- an inner bracket belongs to the interior
    refine ⟨_, '(' :: seen, hnext, h.inside (by omega) (Nat.le_refl _) ?_, ?_⟩
    · simp [hopen]
    · simp [outcome, texts, hopen, groupsFrom_open]

/-- A closing bracket ends the innermost open one. If that is the outermost one too, then its
interior is a slice of the text. -/
theorem Follows.next_close (h : s.Follows p seen) (hopen : 0 < s.depth) (rest : Text) :
    ∃ s' seen', s.next? (String.ofList (p ++ ')' :: rest)) (String.utf8Len p) ')' = .ok s' ∧
      s'.Follows (p ++ [')']) seen' ∧ s'.outcome seen' rest = s.outcome seen (')' :: rest) := by
  obtain ⟨depth, start, slices⟩ := s
  rw [next?, if_neg (by decide), if_pos ⟨rfl, hopen⟩]
  -- one open bracket is the outermost one
  rcases depth with _ | _ | inner
  · exact absurd hopen (Nat.lt_irrefl 0)
  -- what has been seen since the outermost bracket was opened is sliced out
  · obtain ⟨front, rfl, hfront⟩ := h.interior hopen
    obtain ⟨slice, hslice, htext⟩ := slice?_eq_ok front seen.reverse (')' :: rest)
    rw [hfront] at hslice
    refine ⟨⟨0, start, slices ++ [slice]⟩, [], ?_, follows_outside rfl, ?_⟩
    · show (slice? _ start _).bind _ = _
      rw [hslice]
      rfl
    · simp [outcome, texts, groupsFrom_close, htext]
  -- an inner bracket is closed, and the interior goes on
  · have hdepth : inner + 1 ≤ inner + 2 + 1 := by omega
    exact ⟨⟨inner + 1, start, slices⟩, ')' :: seen, rfl, h.inside hopen hdepth rfl, rfl⟩

/-- Any other character is passed over, and so is a closing bracket that closes nothing. -/
theorem Follows.next_other (h : s.Follows p seen) {c : Char} (hopen : c ≠ '(')
    (hclose : ¬ (c = ')' ∧ 0 < s.depth)) (rest : Text) :
    ∃ s' seen', s.next? (String.ofList (p ++ c :: rest)) (String.utf8Len p) c = .ok s' ∧
      s'.Follows (p ++ [c]) seen' ∧ s'.outcome seen' rest = s.outcome seen (c :: rest) := by
  rw [next?, if_neg hopen, if_neg hclose]
  cases hdepth : s.depth with
  | zero =>
    refine ⟨s, [], rfl, follows_outside hdepth, ?_⟩
    simp [outcome, hdepth, groupsFrom, hopen]
  | succ depth =>
    have hother : c ≠ ')' := fun heq => hclose ⟨heq, by omega⟩
    refine ⟨s, c :: seen, rfl, h.inside (by omega) (Nat.le_succ _) rfl, ?_⟩
    simp [outcome, hdepth, groupsFrom_other hopen hother]

/-- A step over a character is no misstep. It keeps up with the characters, and what is found in the
end stays the same. -/
theorem Follows.next (h : s.Follows p seen) (c : Char) (rest : Text) :
    ∃ s' seen', s.next? (String.ofList (p ++ c :: rest)) (String.utf8Len p) c = .ok s' ∧
      s'.Follows (p ++ [c]) seen' ∧ s'.outcome seen' rest = s.outcome seen (c :: rest) := by
  by_cases hopen : c = '('
  · subst hopen
    exact h.next_open rest
  · by_cases hclose : c = ')' ∧ 0 < s.depth
    · obtain ⟨rfl, hpos⟩ := hclose
      exact h.next_close hpos rest
    · exact h.next_other hopen hclose rest

/-- The walk takes no misstep, and it finds what the splitter finds. -/
theorem Follows.walk (h : s.Follows p seen) (rest : Text) :
    ∃ s', walk? (String.ofList (p ++ rest)) (String.utf8Len p) rest s = .ok s' ∧
      s'.texts = s.outcome seen rest := by
  -- the induction is on the characters ahead, with the walk so far general
  induction rest generalizing p seen s with
  | nil => exact ⟨s, rfl, by simp [outcome, groupsFrom]⟩
  | cons c rest ih =>
    obtain ⟨s', seen', hnext, hfollows, houtcome⟩ := h.next c rest
    obtain ⟨last, hwalk, htexts⟩ := ih hfollows
    have hoffset : String.utf8Len (p ++ [c]) = String.utf8Len p + c.utf8Size := by simp
    rw [List.append_assoc, List.singleton_append, hoffset] at hwalk
    refine ⟨last, ?_, htexts.trans houtcome⟩
    rw [walk?, hnext]
    exact hwalk

end Scan

/-- Splitting a text where it is stored takes no misstep: every slice begins before it ends, with no
character cut by either offset, and the count of open brackets stays within its range. The slices
are the groups. -/
theorem groups?_eq_ok (t : Text) : groups? t = .ok (groups t) := by
  -- at the beginning no bracket is open
  have hstart : Scan.Follows [] [] {} := Scan.follows_outside rfl
  obtain ⟨s, hwalk, htexts⟩ := hstart.walk t
  show (Scan.walk? (String.ofList ([] ++ t)) (String.utf8Len []) t {}).map Scan.texts = _
  rw [hwalk]
  exact congrArg Except.ok htexts

/-! ### Groups are shorter -/

/-- A group stands in its text between two brackets, so it takes fewer bytes. -/
theorem utf8Len_of_mem_groups {t g : Text} (h : g ∈ groups t) :
    String.utf8Len g < String.utf8Len t := by
  obtain ⟨d, rfl⟩ := Decomposition.exists_decomposition t
  rw [d.groups_text] at h
  obtain ⟨group, hgroup, rfl⟩ := List.mem_map.mp h
  -- with its brackets the group is still a part of the text
  have hpart : group.text.Sublist d.text :=
    (List.sublist_flatten_of_mem (List.mem_map_of_mem hgroup)).trans (List.sublist_append_left ..)
  have hle := String.utf8Len_le_of_sublist hpart
  have hsize := Char.utf8Size_pos '('
  simp [Group.text] at hle
  omega

end Text

end Parley
