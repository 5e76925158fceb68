/-
The two programs that copy english.txt to cpy.txt: with a loop of `read` and `write` (lesson10/copyfile.c), and through
two mappings (lesson25/copy.c).

A file is its bytes. The loop runs against a kernel that chooses how much each `read` gives and each `write` takes, and
either may fail; the program ignores what `write` returns. Neither program truncates an existing cpy.txt when it opens it.
The mapping program sets the length itself, writes one blank, and copies over it; a mapping of length 0 fails. Its
`int len` is the length of the source only below 2 GiB (`mmapCopy_eq`). Failing calls of `open` are left out, as are
those of `write` and `mmap` in the mapping program for other reasons than the length.

- `Inv`: cpy.txt is what has been written followed by the rest of what it was before.
- `Copied.step`: one round of the loop; a run in which nothing goes wrong has written all that it has read.
- `copies_agree_iff`: below 2 GiB the two programs leave the same file exactly when the old one was not longer than the
  source.
-/
import WebServer.Core.CString
import WebServer.Core.Run

namespace WebServer.Lesson25

/-! ## Files -/

/-- `write` at an offset inside the file or at its end -/
def writeAt (file : Bytes) (offset : ℕ) (data : Bytes) : Bytes :=
  file.take offset ++ data ++ file.drop (offset + data.length)

/-- `truncate`: the file is cut, or filled up with zeros -/
def truncate (file : Bytes) (len : ℕ) : Bytes := file.take len ++ List.replicate (len - file.length) nul

theorem truncate_length (file : Bytes) (len : ℕ) : (truncate file len).length = len := by
  simp only [truncate, List.length_append, List.length_take, List.length_replicate]
  omega

/-! ## lesson10/copyfile.c -/

/-- `sizeof(buf)` -/
def bufSize : ℕ := 1024

structure Loop where
  /-- what `read` has not given yet -/
  rest : Bytes
  cpy : Bytes
  /-- the position of `destfd` -/
  offset : ℕ
  done : Bool
deriving DecidableEq, Repr

def Loop.start (english cpy : Bytes) : Loop := ⟨english, cpy, 0, false⟩

/-- one round of the loop -/
inductive Round where
  /-- `read` returns -1 -/
  | readFails
  /-- `read` returns 0 -/
  | readEnds
  /-- `read` gives `len` bytes, of which `write` takes some -/
  | copies (len written : ℕ)
  /-- `write` returns -1 -/
  | writeFails (len : ℕ)
deriving DecidableEq, Repr

/-- a round; `none` for a result that the kernel cannot give -/
def Loop.step (s : Loop) : Round → Option Loop
  | .readFails => if s.done then none else some { s with done := true }
  | .readEnds => if s.done = false ∧ s.rest = [] then some { s with done := true } else none
  | .copies len written =>
    if s.done = false ∧ 0 < len ∧ len ≤ bufSize ∧ len ≤ s.rest.length ∧ written ≤ len then
      let buf := s.rest.take len
      some ⟨s.rest.drop len, writeAt s.cpy s.offset (buf.take written), s.offset + written, false⟩
    else none
  | .writeFails len =>
    if s.done = false ∧ 0 < len ∧ len ≤ bufSize ∧ len ≤ s.rest.length then some { s with rest := s.rest.drop len }
    else none

/-- a round in which nothing goes wrong -/
def Round.complete : Round → Bool
  | .readEnds => true
  | .copies len written => len == written
  | .readFails | .writeFails _ => false

/-! ## lesson25/copy.c -/

/-- cpy.txt when the program ends -/
def mmapCopy (english cpy : Bytes) : Bytes :=
  let len := int32 english.length
  -- `truncate` to a negative length fails; nobody looks at its result
  let cpy := writeAt (if len < 0 then cpy else truncate cpy len.toNat) 0 [space]
  -- `mmap` of length 0 fails, and so does one of a negative length, which is a large `size_t`; the program exits
  if len ≤ 0 then cpy
  -- `memcpy` into the shared mapping of the first `len` bytes
  else writeAt cpy 0 (english.take len.toNat)

/-- below 2 GiB the mapping program copies exactly, if there is anything to copy -/
theorem mmapCopy_eq {english : Bytes} (hint : english.length < 2 ^ 31) (hne : english ≠ []) (cpy : Bytes) :
    mmapCopy english cpy = english := by
  have hpos : 0 < english.length := List.length_pos_of_ne_nil hne
  have hlength : (writeAt (truncate cpy english.length) 0 [space]).length ≤ english.length := by
    simp only [writeAt, List.take_zero, List.nil_append, List.length_append, List.length_drop, List.length_cons,
      List.length_nil, truncate_length]
    omega
  unfold mmapCopy
  rw [int32_natCast hint]
  dsimp only
  rw [if_neg (by omega), if_neg (by omega), Int.toNat_natCast, List.take_length, writeAt, List.take_zero, List.nil_append,
    Nat.zero_add, List.drop_eq_nil_of_le hlength, List.append_nil]

/-! ## The loop -/

/-- cpy.txt is what has been written, followed by the rest of what it was -/
structure Inv (cpy written : Bytes) (s : Loop) : Prop where
  content : s.cpy = written ++ cpy.drop written.length
  offset : s.offset = written.length

theorem inv_start (english cpy : Bytes) : Inv cpy [] (Loop.start english cpy) := ⟨rfl, rfl⟩

/-- writing at the end of what has been written -/
theorem Inv.write {cpy written : Bytes} {s : Loop} (h : Inv cpy written s) (data : Bytes) :
    Inv cpy (written ++ data) { s with cpy := writeAt s.cpy s.offset data, offset := s.offset + data.length } where
  content := by
    calc writeAt s.cpy s.offset data
        = (written ++ cpy.drop written.length).take written.length ++ data ++
            (written ++ cpy.drop written.length).drop (written.length + data.length) := by
          rw [writeAt, h.content, h.offset]
      _ = written ++ data ++ cpy.drop (written.length + data.length) := by
          rw [List.take_left, List.drop_length_add_append, List.drop_drop]
      _ = (written ++ data) ++ cpy.drop (written ++ data).length := by rw [List.length_append]
  offset := by rw [List.length_append, h.offset]

/-- what the loop has done in some rounds -/
structure Copied (english cpy : Bytes) (rounds : List Round) (s : Loop) (written : Bytes) : Prop extends
    Inv cpy written s where
  /-- what is written and what is still to be read are parts of the source, in its order -/
  parts : (written ++ s.rest).Sublist english
  whole : (∀ r ∈ rounds, r.complete = true) → written ++ s.rest = english
  finished : (∀ r ∈ rounds, r.complete = true) → s.done = true → s.rest = []

theorem copied_start (english cpy : Bytes) : Copied english cpy [] (Loop.start english cpy) [] where
  toInv := inv_start english cpy
  parts := List.Sublist.refl english
  whole := fun _ => rfl
  finished := nofun

theorem Copied.step {english cpy written : Bytes} {rounds : List Round} {s s' : Loop} {r : Round}
    (h : Copied english cpy rounds s written) (hs : s.step r = some s') :
    ∃ written', Copied english cpy (rounds ++ [r]) s' written' := by
  have hbefore : (∀ x ∈ rounds ++ [r], x.complete = true) → ∀ x ∈ rounds, x.complete = true :=
    fun hall x hx => hall x (List.mem_append_left _ hx)
  have hlast : (∀ x ∈ rounds ++ [r], x.complete = true) → r.complete = true := fun hall => hall r (by simp)
  cases r with
  | readFails =>
    simp only [Loop.step] at hs
    split_ifs at hs
    cases hs
    refine ⟨written, ⟨h.content, h.offset⟩, h.parts, fun hall => h.whole (hbefore hall), fun hall => ?_⟩
    cases hlast hall
  | readEnds =>
    simp only [Loop.step] at hs
    split_ifs at hs with hcond
    cases hs
    exact ⟨written, ⟨h.content, h.offset⟩, h.parts, fun hall => h.whole (hbefore hall), fun _ _ => hcond.2⟩
  | copies len count =>
    simp only [Loop.step] at hs
    split_ifs at hs with hcond
    cases hs
    obtain ⟨-, -, -, hlen, hcount⟩ := hcond
    have hdata : ((s.rest.take len).take count).length = count := by
      simp only [List.length_take]
      omega
    have hinv := h.toInv.write ((s.rest.take len).take count)
    rw [hdata] at hinv
    refine ⟨written ++ (s.rest.take len).take count, ⟨hinv.content, hinv.offset⟩, ?_, fun hall => ?_, nofun⟩
    · refine List.Sublist.trans ?_ h.parts
      rw [List.append_assoc]
      refine (List.Sublist.refl written).append ?_
      calc ((s.rest.take len).take count ++ s.rest.drop len).Sublist (s.rest.take len ++ s.rest.drop len) :=
            (List.take_sublist _ _).append (List.Sublist.refl _)
        _ = s.rest := List.take_append_drop len s.rest
    · obtain rfl : len = count := by simpa [Round.complete] using hlast hall
      rw [List.take_take, min_self, List.append_assoc, List.take_append_drop]
      exact h.whole (hbefore hall)
  | writeFails len =>
    simp only [Loop.step] at hs
    split_ifs at hs
    cases hs
    refine ⟨written, ⟨h.content, h.offset⟩, ?_, fun hall => ?_, fun hall => ?_⟩
    · exact ((List.Sublist.refl written).append (List.drop_sublist len s.rest)).trans h.parts
    · cases hlast hall
    · cases hlast hall

theorem run_copied {english cpy : Bytes} {rounds : List Round} {s : Loop}
    (h : Run.exec Loop.step (Loop.start english cpy) rounds = some s) : ∃ written, Copied english cpy rounds s written :=
  Run.exec_history (I := fun rounds s => ∃ written, Copied english cpy rounds s written)
    (fun _ _ _ _ ⟨_, hcopied⟩ hs => hcopied.step hs) ⟨[], copied_start english cpy⟩ h

/-! ## Main result -/

/-- **When the two programs leave the same file.** In every run of the loop, whatever the kernel gives and takes, cpy.txt
consists of parts of the source in their order, followed by the rest of what it was before. If nothing goes wrong, the
loop leaves the whole source followed by that rest, and so the loop and the mapping program leave the same file, for a
source that is not empty and shorter than 2 GiB, if and only if the old cpy.txt was not longer than the source. -/
theorem copies_agree_iff {english cpy : Bytes} {rounds : List Round} {s : Loop}
    (h : Run.exec Loop.step (Loop.start english cpy) rounds = some s) :
    (∃ written, written.Sublist english ∧ s.cpy = written ++ cpy.drop written.length) ∧
    (s.done = true → (∀ r ∈ rounds, r.complete = true) → s.cpy = english ++ cpy.drop english.length ∧
      (english ≠ [] → english.length < 2 ^ 31 → (s.cpy = mmapCopy english cpy ↔ cpy.length ≤ english.length))) := by
  obtain ⟨written, hcopied⟩ := run_copied h
  have hparts : written.Sublist english := (List.sublist_append_left written s.rest).trans hcopied.parts
  refine ⟨⟨written, hparts, hcopied.content⟩, fun hdone hcomplete => ?_⟩
  have hwhole : written = english := by
    have hall := hcopied.whole hcomplete
    rwa [hcopied.finished hcomplete hdone, List.append_nil] at hall
  have hcontent : s.cpy = english ++ cpy.drop english.length := hwhole ▸ hcopied.content
  refine ⟨hcontent, fun hne hint => ?_⟩
  rw [hcontent, mmapCopy_eq hint hne, List.append_right_eq_self, List.drop_eq_nil_iff]

/-- a source of three bytes over a file of four, in two rounds -/
def copyRun : Option Loop :=
  Run.exec Loop.step (Loop.start (ascii "abc") (ascii "wxyz")) [.copies 2 2, .copies 1 1, .readEnds]

theorem copyRun_isSome : copyRun.isSome = true := by decide +kernel

theorem copies_agree_iff_copyRun : (copyRun.get copyRun_isSome).cpy = ascii "abcz" ∧
    (copyRun.get copyRun_isSome).cpy ≠ mmapCopy (ascii "abc") (ascii "wxyz") := by
  obtain ⟨-, hrun⟩ := copies_agree_iff (Option.some_get copyRun_isSome).symm
  obtain ⟨-, hagree⟩ := hrun (by decide +kernel) (by decide +kernel)
  exact ⟨by decide +kernel, fun heq => absurd ((hagree (by decide +kernel) (by decide +kernel)).mp heq) (by decide +kernel)⟩

end WebServer.Lesson25
