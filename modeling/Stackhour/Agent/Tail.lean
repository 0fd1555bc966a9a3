import Stackhour.Core.Text
import Stackhour.Lib.Lines
import Stackhour.Lib.System
import Stackhour.Lib.Utf8

/-!
# Tailing

`read_new_lines` over a file that only grows. The stored offset moves to the
last newline of what was read, so that the records returned are those of the
lines complete so far, however appends and reads fall.
-/

namespace Stackhour.Agent

open Core TransitionSystem

variable {Value : Type*} (parse : List Char → Option Value)

/-! ## Reading -/

def MAX_READ_PER_FILE : ℕ := 5 * 1024 * 1024

/-- Where the file system fails a call. -/
inductive TailIo where
  | noMetadata
  | noRead
  | done
deriving DecidableEq

/-- The last newline of a buffer. -/
def lastNewline : List UInt8 → Option ℕ
  | [] => none
  | b :: rest =>
      match lastNewline rest with
      | some i => some (i + 1)
      | none => if b = Utf8.newline then some 0 else none

/-- The value of a line, if it has one. -/
def lineValue (line : List Char) : Option Value :=
  if trim line = [] then none else parse (trim line)

/-- The values of the lines of a buffer. -/
def lineValues (buf : List UInt8) : List Value :=
  ((Utf8.lossy buf).splitOn '\n').filterMap (lineValue parse)

/-- `read_new_lines`, with the offset stored for the file; one that is missing or
no number is none. -/
def readNewLines (file : List UInt8) (offset : Option ℕ) (io : TailIo) : Option ℕ × List Value :=
  if io = .noMetadata then (offset, [])
  else
    match offset with
    | none => (some file.length, [])
    | some prev =>
        if file.length ≤ prev then (some (min prev file.length), [])
        else
          let start :=
            if MAX_READ_PER_FILE < file.length - prev then file.length - MAX_READ_PER_FILE else prev
          if io = .noRead then (some prev, [])
          else
            let buf := file.drop start
            match lastNewline buf with
            | none => (some start, [])
            | some last => (some (start + last + 1), lineValues parse (buf.take last))

/-! ## A schedule of appends and reads -/

/-- A file and its tail: the bytes as the last call saw them, the size at the
first call, and the values returned so far. -/
structure Tailing (Value : Type*) where
  file : List UInt8
  offset : Option ℕ
  seen : List UInt8
  start : Option ℕ
  returned : List Value

inductive TailLabel where
  | append (bytes : List UInt8)
  | call (io : TailIo)

namespace Tailing

def call (s : Tailing Value) (io : TailIo) : Tailing Value :=
  let read := readNewLines parse s.file s.offset io
  { s with
    offset := read.1
    seen := if io = .done then s.file else s.seen
    start := if s.offset = none then read.1 else s.start
    returned := s.returned ++ read.2 }

def step (s : Tailing Value) : TailLabel → Option (Tailing Value)
  | .append bytes => some { s with file := s.file ++ bytes }
  | .call io => some (s.call parse io)

/-- A file that has not been seen. -/
def system : System (Tailing Value) TailLabel where
  init s := s.offset = none ∧ s.seen = [] ∧ s.start = none ∧ s.returned = []
  step := step parse

end Tailing

/-- The value of a line of bytes. -/
def recordValue (line : List UInt8) : Option Value := lineValue parse (Utf8.lossy line)

/-- The values of the complete lines of some bytes. -/
def records (bytes : List UInt8) : List Value :=
  (Lines.complete Utf8.newline bytes).filterMap (recordValue parse)

/-- The offset is where the tail started, or just behind the last newline of the
bytes that the last call saw. -/
def Stands (start offset : ℕ) (seen : List UInt8) : Prop :=
  (offset = start ∧ Utf8.newline ∉ seen.drop start) ∨
    ∃ front back, seen = front ++ Utf8.newline :: back ∧ Utf8.newline ∉ back ∧
      start ≤ front.length ∧ offset = front.length + 1

/-- **Tailing does not depend on how the file grew.** The values returned are
those of the complete lines between the size at the first call and the offset. -/
def Tailed (s : Tailing Value) : Prop :=
  match s.start with
  | none => s.offset = none ∧ s.returned = []
  | some start => ∃ offset, s.offset = some offset ∧
      s.returned = records parse ((s.file.take offset).drop start) ∧ Stands start offset s.seen

/-- At most 5 MiB are unread at a call. -/
def KeepsUp (s : Tailing Value) : TailLabel → Prop
  | .append _ => True
  | .call _ => ∀ offset, s.offset = some offset → s.file.length - offset ≤ MAX_READ_PER_FILE

/-! ## One read -/

section Reading

variable {parse}

theorem lastNewline_none {buf : List UInt8} (h : lastNewline buf = none) :
    Utf8.newline ∉ buf := by
  induction buf with
  | nil => exact List.not_mem_nil
  | cons b rest ih =>
      unfold lastNewline at h
      split at h
      · cases h
      · next hrest =>
          split at h
          · cases h
          · next hb =>
              intro hmem
              rcases List.mem_cons.mp hmem with rfl | hmem
              · exact hb rfl
              · exact ih hrest hmem

theorem lastNewline_some {buf : List UInt8} {i : ℕ} (h : lastNewline buf = some i) :
    ∃ front back, buf = front ++ Utf8.newline :: back ∧ Utf8.newline ∉ back ∧
      front.length = i := by
  induction buf generalizing i with
  | nil => cases h
  | cons b rest ih =>
      unfold lastNewline at h
      split at h
      · next k hrest =>
          obtain ⟨front, back, rfl, hback, rfl⟩ := ih hrest
          exact ⟨b :: front, back, rfl, hback, Option.some.inj h⟩
      · next hrest =>
          split at h
          · next hb => exact ⟨[], rest, by rw [hb]; rfl, lastNewline_none hrest, Option.some.inj h⟩
          · cases h

/-- The lines of the decoded buffer are the decoded lines of the buffer. -/
theorem lineValues_eq (buf : List UInt8) :
    lineValues parse buf = records parse (buf ++ [Utf8.newline]) := by
  unfold lineValues records
  rw [Utf8.lossy_splitOn, List.filterMap_map, Lines.complete_append_cons, Lines.complete_nil,
    List.append_nil]
  rfl

theorem records_append {bytes : List UInt8} (h : Lines.Whole Utf8.newline bytes)
    (more : List UInt8) : records parse (bytes ++ more) = records parse bytes ++ records parse more := by
  unfold records
  rw [Lines.complete_append h, List.filterMap_append]

/-- A call that keeps up goes on from the offset. -/
theorem readNewLines_done {file : List UInt8} {prev : ℕ} (hle : prev ≤ file.length)
    (hunread : file.length - prev ≤ MAX_READ_PER_FILE) :
    (Utf8.newline ∉ file.drop prev ∧ readNewLines parse file (some prev) .done = (some prev, [])) ∨
      ∃ front back, file.drop prev = front ++ Utf8.newline :: back ∧ Utf8.newline ∉ back ∧
        readNewLines parse file (some prev) .done =
          (some (prev + front.length + 1), lineValues parse front) := by
  unfold readNewLines
  rw [if_neg (by decide)]
  dsimp only
  by_cases hsize : file.length ≤ prev
  · refine .inl ⟨?_, ?_⟩
    · rw [List.drop_eq_nil_of_le hsize]
      exact List.not_mem_nil
    · rw [if_pos hsize, Nat.min_eq_left hle]
  · rw [if_neg hsize, if_neg (Nat.not_lt.mpr hunread), if_neg (by decide)]
    cases hlast : lastNewline (file.drop prev) with
    | none => exact .inl ⟨lastNewline_none hlast, rfl⟩
    | some last =>
        obtain ⟨front, back, heq, hback, rfl⟩ := lastNewline_some hlast
        refine .inr ⟨front, back, heq, hback, ?_⟩
        dsimp only
        rw [heq, List.take_left]

/-- A call that fails leaves the offset. -/
theorem readNewLines_failed {file : List UInt8} {prev : ℕ} (hle : prev ≤ file.length)
    {io : TailIo} (hio : io ≠ .done) :
    readNewLines parse file (some prev) io = (some prev, []) := by
  unfold readNewLines
  cases io with
  | noMetadata => rfl
  | noRead =>
      rw [if_neg (by decide)]
      dsimp only
      split
      · rw [Nat.min_eq_left hle]
      · rfl
  | done => exact absurd rfl hio

end Reading

/-! ## Runs -/

/-- Without a newline behind it the offset stands as it did. -/
theorem Stands.grow {start offset : ℕ} {seen file : List UInt8} (h : Stands start offset seen)
    (hgrow : seen <+: file) (hnone : Utf8.newline ∉ file.drop offset) :
    Stands start offset file := by
  rcases h with ⟨rfl, -⟩ | ⟨front, back, rfl, -, hle, rfl⟩
  · exact .inl ⟨rfl, hnone⟩
  · obtain ⟨more, rfl⟩ := hgrow
    refine .inr ⟨front, back ++ more, ?_, ?_, hle, rfl⟩
    · rw [List.append_assoc]
      rfl
    · rw [List.append_assoc, List.cons_append] at hnone
      have hdrop : (front ++ Utf8.newline :: (back ++ more)).drop (front.length + 1) =
          back ++ more := by simp
      rwa [hdrop] at hnone

namespace Tailing

variable {parse} {s t : Tailing Value}

/-- What a schedule keeps: the returned lines are whole, and what was seen is
still there. -/
structure Follows (parse : List Char → Option Value) (s : Tailing Value) (start offset : ℕ) :
    Prop where
  stored : s.offset = some offset
  after : start ≤ offset
  inside : offset ≤ s.file.length
  whole : Lines.Whole Utf8.newline ((s.file.take offset).drop start)
  returned : s.returned = records parse ((s.file.take offset).drop start)
  grown : s.seen <+: s.file
  stands : Stands start offset s.seen

/-- An unseen file, or a tail that follows it. -/
def Kept (parse : List Char → Option Value) (s : Tailing Value) : Prop :=
  (s.start = none ∧ s.offset = none ∧ s.returned = [] ∧ s.seen = []) ∨
    ∃ start offset, s.start = some start ∧ s.Follows parse start offset

theorem Follows.append {start offset : ℕ} (h : s.Follows parse start offset)
    (bytes : List UInt8) : Follows parse { s with file := s.file ++ bytes } start offset := by
  have htake : (s.file ++ bytes).take offset = s.file.take offset :=
    List.take_append_of_le_length h.inside
  constructor
  · exact h.stored
  · exact h.after
  · show offset ≤ (s.file ++ bytes).length
    rw [List.length_append]
    exact Nat.le_add_right_of_le h.inside
  · show Lines.Whole _ (((s.file ++ bytes).take offset).drop start)
    rw [htake]
    exact h.whole
  · show s.returned = records parse (((s.file ++ bytes).take offset).drop start)
    rw [htake]
    exact h.returned
  · exact h.grown.trans (List.prefix_append _ _)
  · exact h.stands

theorem take_line (consumed front back : List UInt8) :
    (consumed ++ (front ++ Utf8.newline :: back)).take (consumed.length + front.length + 1) =
      consumed ++ (front ++ [Utf8.newline]) := by
  have hsplit : consumed ++ (front ++ Utf8.newline :: back) =
      (consumed ++ (front ++ [Utf8.newline])) ++ back := by simp
  rw [hsplit]
  refine List.take_left' ?_
  simp only [List.length_append, List.length_singleton]
  omega

/-- The first call that sees the file. -/
theorem follows_first (file seen : List UInt8) (hseen : seen = [] ∨ seen = file) :
    Follows parse ⟨file, some file.length, seen, some file.length, []⟩ file.length file.length := by
  have hslice : (file.take file.length).drop file.length = [] := by simp
  constructor
  · rfl
  · exact Nat.le_refl _
  · exact Nat.le_refl _
  · exact .inl hslice
  · show [] = records parse ((file.take file.length).drop file.length)
    rw [hslice]
    rfl
  · rcases hseen with rfl | rfl
    · exact List.nil_prefix
    · exact List.prefix_rfl
  · refine .inl ⟨rfl, ?_⟩
    rcases hseen with rfl | rfl
    · simp
    · simp

/-- A call that reads. -/
theorem Follows.call {start offset : ℕ} (h : s.Follows parse start offset)
    (hunread : s.file.length - offset ≤ MAX_READ_PER_FILE) :
    ∃ next values, readNewLines parse s.file (some offset) .done = (some next, values) ∧
      Follows parse
        { s with offset := some next, seen := s.file, returned := s.returned ++ values }
        start next := by
  rcases @readNewLines_done _ parse _ _ h.inside hunread with
    ⟨hnone, hread⟩ | ⟨front, back, hdrop, hback, hread⟩
  · refine ⟨offset, [], hread, ?_⟩
    constructor
    · rfl
    · exact h.after
    · exact h.inside
    · exact h.whole
    · exact (List.append_nil _).trans h.returned
    · exact List.prefix_rfl
    · exact h.stands.grow h.grown hnone
  · refine ⟨offset + front.length + 1, lineValues parse front, hread, ?_⟩
    -- the file is what was consumed, the new lines and a fragment
    have hfile : s.file = s.file.take offset ++ (front ++ Utf8.newline :: back) := by
      rw [← hdrop, List.take_append_drop]
    have hlength : (s.file.take offset).length = offset := List.length_take_of_le h.inside
    have htake : s.file.take (offset + front.length + 1) =
        s.file.take offset ++ (front ++ [Utf8.newline]) := by
      have htake := take_line (s.file.take offset) front back
      rwa [← hfile, hlength] at htake
    have hslice : (s.file.take (offset + front.length + 1)).drop start =
        (s.file.take offset).drop start ++ (front ++ [Utf8.newline]) := by
      rw [htake, List.drop_append_of_le_length (by rw [hlength]; exact h.after)]
    constructor
    · rfl
    · exact Nat.le_add_right_of_le (Nat.le_add_right_of_le h.after)
    · show offset + front.length + 1 ≤ s.file.length
      rw [hfile]
      simp only [List.length_append, hlength, List.length_cons]
      omega
    · show Lines.Whole _ ((s.file.take (offset + front.length + 1)).drop start)
      rw [hslice]
      exact h.whole.append (.inr ⟨front, rfl⟩)
    · show s.returned ++ lineValues parse front =
        records parse ((s.file.take (offset + front.length + 1)).drop start)
      rw [hslice, records_append h.whole, ← h.returned, lineValues_eq]
    · exact List.prefix_rfl
    · refine .inr ⟨s.file.take offset ++ front, back, ?_, hback, ?_, ?_⟩
      · rw [List.append_assoc]
        exact hfile
      · rw [List.length_append, hlength]
        exact Nat.le_add_right_of_le h.after
      · rw [List.length_append, hlength]

/-- One step of a schedule. -/
theorem step_kept (h : s.Kept parse) {a : TailLabel} (hok : KeepsUp s a)
    (hs : step parse s a = some t) : t.Kept parse := by
  cases a with
  | append bytes =>
      obtain rfl := Option.some.inj hs
      rcases h with h | ⟨start, offset, hstart, h⟩
      · exact .inl h
      · exact .inr ⟨start, offset, hstart, h.append bytes⟩
  | call io =>
      have ht : t = s.call parse io := (Option.some.inj hs).symm
      rw [ht]
      obtain ⟨file, offset, seen, start, returned⟩ := s
      rcases h with ⟨hstart, hoffset, hreturned, hseen⟩ | ⟨first, prev, hstart, h⟩
      · obtain rfl : start = none := hstart
        obtain rfl : offset = none := hoffset
        obtain rfl : returned = [] := hreturned
        obtain rfl : seen = [] := hseen
        cases io with
        | noMetadata => exact .inl ⟨rfl, rfl, rfl, rfl⟩
        | noRead => exact .inr ⟨_, _, rfl, follows_first file [] (.inl rfl)⟩
        | done => exact .inr ⟨_, _, rfl, follows_first file file (.inr rfl)⟩
      · obtain rfl : offset = some prev := h.stored
        refine .inr ⟨first, ?_⟩
        by_cases hio : io = .done
        · subst hio
          obtain ⟨next, values, hread, hnext⟩ := h.call (hok prev rfl)
          change readNewLines parse file (some prev) .done = _ at hread
          refine ⟨next, hstart, ?_⟩
          unfold call
          dsimp only
          rw [hread]
          exact hnext
        · have hread : readNewLines parse file (some prev) io = (some prev, []) :=
            readNewLines_failed h.inside hio
          refine ⟨prev, hstart, ?_⟩
          unfold call
          dsimp only
          rw [hread, if_neg hio, List.append_nil]
          exact h

end Tailing

/-- **Tailing is independent of chunking.** -/
theorem tails {parse : List Char → Option Value} {s : Tailing Value}
    (hreach : (Tailing.system parse).Reach KeepsUp s) : Tailed parse s := by
  have hkept : s.Kept parse := by
    refine hreach.invariant (P := fun s => s.Kept parse) ?_ ?_
    · rintro s ⟨hoffset, hseen, hstart, hreturned⟩
      exact .inl ⟨hstart, hoffset, hreturned, hseen⟩
    · rintro s a t h hok hs
      exact Tailing.step_kept h hok hs
  unfold Tailed
  rcases hkept with ⟨hstart, hoffset, hreturned, -⟩ | ⟨start, offset, hstart, h⟩
  · rw [hstart]
    exact ⟨hoffset, hreturned⟩
  · rw [hstart]
    exact ⟨offset, h.stored, h.returned, h.stands⟩

set_option maxRecDepth 4096 in
/-- A record whose second half, cut inside a character, comes later. -/
theorem tails_sample :
    ∃ s, (Tailing.system some).run ⟨[], none, [], none, []⟩
        [.append [0x61, 0x0A], .call .done, .append [0xC3], .call .done,
          .append [0xA9, 0x0A, 0x62], .call .done] = some s ∧
      s.offset = some 5 ∧ s.returned = [['é']] ∧ Tailed some s := by
  have hstart : (Tailing.system some).Reach KeepsUp
      (⟨[], none, [], none, []⟩ : Tailing (List Char)) := .start ⟨rfl, rfl, rfl, rfl⟩
  have hfirst := hstart.next (a := TailLabel.append [0x61, 0x0A]) trivial rfl
  have hseen := hfirst.next (a := TailLabel.call .done) (by rintro _ ⟨⟩) rfl
  have hhalf := hseen.next (a := TailLabel.append [0xC3]) trivial rfl
  have hnone := hhalf.next (a := TailLabel.call .done) (by rintro _ ⟨⟩; decide) rfl
  have hrest := hnone.next (a := TailLabel.append [0xA9, 0x0A, 0x62]) trivial rfl
  have hread := hrest.next (a := TailLabel.call .done) (by rintro _ ⟨⟩; decide) rfl
  exact ⟨_, rfl, rfl, rfl, tails hread⟩

end Stackhour.Agent
