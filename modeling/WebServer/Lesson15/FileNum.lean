/-
The program that counts the regular files below a directory (lesson15/readFileNum.c).

`getFileNum` reads a directory entry by entry and calls itself for every subdirectory, with the path in an array of 256
bytes. Every call keeps its directory open until it has read it to the end, and `opendir` fails when the process has no
descriptor left (`limit`); a failing `opendir` ends the program. The file system does not change meanwhile, so the path of
a subdirectory leads to the listing of that entry. `total` is an `int` and wraps (`int32`).

- `below`: all entries below a directory, in the order of the walk, with depth, path, kind, and whether they can be opened.
- `readLoop_eq`: the loop gives the number of regular files among them, as an `int`, unless a directory among them cannot
  be entered; the first such directory decides how the program ends.
- `getFileNum_iff`: when the program prints a number, and which one; when it writes outside the array.
-/
import WebServer.Core.CString

namespace WebServer.Lesson15

/-! ## Model -/

/-- what `readdir` gives, entry after entry: `d_name`, `d_type`, whether `opendir` succeeds on the entry, and what is read
from it then -/
inductive Listing where
  | nil
  | cons (name : Bytes) (dType : UInt8) (readable : Bool) (sub rest : Listing)
deriving Repr

/-- how the program ends without a number -/
inductive Failure where
  /-- `exit(0)` after a failing `opendir` -/
  | exits
  /-- `sprintf` writes outside `newpath` -/
  | overruns
deriving DecidableEq, Repr

/-- `sizeof(newpath)` -/
def pathSize : ℕ := 256

def isDot (name : Bytes) : Bool := name = [dot] ∨ name = [dot, dot]

/-- `opendir`, where `opened` directories are open already -/
def opendir (limit opened : ℕ) (readable : Bool) : Bool := readable && decide (opened < limit)

/-- the loop of `getFileNum` -/
def readLoop (limit : ℕ) : ℕ → Bytes → ℤ → Listing → Except Failure ℤ
  | _, _, total, .nil => .ok total
  | opened, path, total, .cons name dType readable sub rest =>
    if isDot name then readLoop limit opened path total rest
    else if dType = 4 then
      let newpath := path ++ slash :: name
      if newpath.length + 1 ≤ pathSize then
        -- the call of `getFileNum` for `newpath`
        if opendir limit opened readable then
          match readLoop limit (opened + 1) newpath 0 sub with
          | .ok n => readLoop limit opened path (int32 (total + n)) rest
          | .error f => .error f
        else .error .exits
      else .error .overruns
    else if dType = 8 then readLoop limit opened path (int32 (total + 1)) rest
    else readLoop limit opened path total rest

def getFileNum (limit opened : ℕ) (path : Bytes) (readable : Bool) (entries : Listing) : Except Failure ℤ :=
  if opendir limit opened readable then readLoop limit (opened + 1) path 0 entries else .error .exits

/-! ## The entries below a directory -/

structure Entry where
  /-- the number of directories above it, from the argument of the program on -/
  depth : ℕ
  path : Bytes
  dType : UInt8
  readable : Bool
deriving DecidableEq, Repr

/-- all entries below a directory -/
def below : ℕ → Bytes → Listing → List Entry
  | _, _, .nil => []
  | depth, path, .cons name dType readable sub rest =>
    if isDot name then below depth path rest
    else ⟨depth, path ++ slash :: name, dType, readable⟩ ::
      ((if dType = 4 then below (depth + 1) (path ++ slash :: name) sub else []) ++ below depth path rest)

/-- why a directory cannot be entered -/
def Entry.failure (limit : ℕ) (e : Entry) : Option Failure :=
  if e.dType = 4 then
    if pathSize ≤ e.path.length then some .overruns
    else if opendir limit e.depth e.readable then none
    else some .exits
  else none

theorem failure_other {limit : ℕ} {e : Entry} (h : e.dType ≠ 4) : e.failure limit = none := if_neg h

theorem failure_long {limit depth : ℕ} {path : Bytes} {readable : Bool} (h : ¬ path.length + 1 ≤ pathSize) :
    Entry.failure limit ⟨depth, path, 4, readable⟩ = some .overruns := by
  have hlong : pathSize ≤ path.length := Nat.lt_succ_iff.mp (not_le.mp h)
  simp [Entry.failure, hlong]

theorem failure_fits {limit depth : ℕ} {path : Bytes} {readable : Bool} (h : path.length + 1 ≤ pathSize) :
    Entry.failure limit ⟨depth, path, 4, readable⟩ = if opendir limit depth readable then none else some .exits := by
  have hfits : ¬ pathSize ≤ path.length := Nat.not_le_of_lt h
  simp [Entry.failure, hfits]

def regularFiles (entries : List Entry) : ℕ := entries.countP fun e => e.dType = 8

/-- what the walk over entries in this order comes to -/
def outcome (limit : ℕ) (total : ℤ) (entries : List Entry) : Except Failure ℤ :=
  match entries.findSome? (Entry.failure limit) with
  | none => .ok (int32 (total + regularFiles entries))
  | some f => .error f

theorem outcome_cons_failure {limit : ℕ} {total : ℤ} {e : Entry} {f : Failure} {rest : List Entry}
    (h : e.failure limit = some f) : outcome limit total (e :: rest) = .error f := by
  simp [outcome, h]

theorem outcome_cons {limit : ℕ} {total : ℤ} {e : Entry} {rest : List Entry} (h : e.failure limit = none) :
    outcome limit total (e :: rest) = outcome limit (total + if e.dType = 8 then 1 else 0) rest := by
  unfold outcome regularFiles
  simp only [List.findSome?_cons, h, List.countP_cons, decide_eq_true_eq]
  push_cast
  rw [add_comm (List.countP _ rest : ℤ), add_assoc]

theorem outcome_append (limit : ℕ) (total : ℤ) (before rest : List Entry) :
    outcome limit total (before ++ rest) =
      match outcome limit 0 before with
      | .ok n => outcome limit (total + n) rest
      | .error f => .error f := by
  unfold outcome regularFiles
  rw [List.findSome?_append, List.countP_append]
  cases before.findSome? (Entry.failure limit) with
  | none =>
    cases rest.findSome? (Entry.failure limit) with
    | none =>
      simp only [Option.none_or, Nat.cast_add, zero_add, Except.ok.injEq]
      rw [add_assoc total (int32 _), add_left_comm total (int32 _), int32_add, add_left_comm total]
    | some f => simp
  | some f => simp

theorem outcome_ok_iff {limit : ℕ} {n : ℤ} {entries : List Entry} :
    outcome limit 0 entries = .ok n ↔ (∀ e ∈ entries, e.failure limit = none) ∧ n = int32 (regularFiles entries) := by
  unfold outcome
  rw [zero_add]
  cases h : entries.findSome? (Entry.failure limit) with
  | none =>
    rw [List.findSome?_eq_none_iff] at h
    simp only [Except.ok.injEq]
    exact ⟨fun hn => ⟨h, hn.symm⟩, fun hn => hn.2.symm⟩
  | some f =>
    refine ⟨nofun, fun hall => ?_⟩
    rw [List.findSome?_eq_none_iff.mpr hall.1] at h
    cases h

theorem outcome_error_iff {limit : ℕ} {total : ℤ} {f : Failure} {entries : List Entry} :
    outcome limit total entries = .error f ↔
      ∃ before e rest, entries = before ++ e :: rest ∧ (∀ x ∈ before, x.failure limit = none) ∧
        e.failure limit = some f := by
  unfold outcome
  cases h : entries.findSome? (Entry.failure limit) with
  | none =>
    refine ⟨nofun, ?_⟩
    rintro ⟨before, e, rest, rfl, -, he⟩
    rw [List.findSome?_eq_none_iff] at h
    rw [h e (by simp)] at he
    cases he
  | some g =>
    simp only [Except.error.injEq]
    constructor
    · rintro rfl
      obtain ⟨before, e, rest, hsplit, he, hbefore⟩ := List.findSome?_eq_some_iff.mp h
      exact ⟨before, e, rest, hsplit, hbefore, he⟩
    · rintro ⟨before, e, rest, hsplit, hbefore, he⟩
      have hf := List.findSome?_eq_some_iff.mpr ⟨before, e, rest, hsplit, he, hbefore⟩
      exact Option.some.inj (h.symm.trans hf)

/-! ## The walk -/

/-- **The loop is the walk over all entries below.** By induction on the listing; a subdirectory is a walk of its own, in
front of the entries that follow it. -/
theorem readLoop_eq (limit : ℕ) (entries : Listing) (opened : ℕ) (path : Bytes) (total : ℤ) :
    readLoop limit opened path (int32 total) entries = outcome limit total (below opened path entries) := by
  induction entries generalizing opened path total with
  | nil =>
    change Except.ok (int32 total) = .ok (int32 (total + (0 : ℕ)))
    rw [Nat.cast_zero, add_zero]
  | cons name dType readable sub rest ihsub ihrest =>
    unfold readLoop below
    by_cases hdot : isDot name = true
    · simp only [hdot, if_true]
      exact ihrest opened path total
    rw [if_neg hdot, if_neg hdot]
    by_cases hdir : dType = 4
    · subst hdir
      dsimp only
      rw [if_pos rfl, if_pos rfl]
      split_ifs with hlength hopen
      · have hok : Entry.failure limit ⟨opened, path ++ slash :: name, 4, readable⟩ = none := by
          rw [failure_fits hlength, if_pos hopen]
        have hreg : (4 : UInt8) ≠ 8 := by decide
        have hsub := ihsub (opened + 1) (path ++ slash :: name) 0
        rw [show int32 0 = 0 from rfl] at hsub
        rw [outcome_cons hok, if_neg hreg, add_zero, outcome_append, hsub]
        cases outcome limit 0 (below (opened + 1) (path ++ slash :: name) sub) with
        | ok n =>
          dsimp only
          rw [int32_add]
          exact ihrest opened path (total + n)
        | error f => rfl
      · have hexits : Entry.failure limit ⟨opened, path ++ slash :: name, 4, readable⟩ = some .exits := by
          rw [failure_fits hlength, if_neg hopen]
        rw [outcome_cons_failure hexits]
      · rw [outcome_cons_failure (failure_long hlength)]
    · rw [if_neg hdir, if_neg hdir, List.nil_append, outcome_cons (failure_other hdir)]
      split_ifs
      · rw [int32_add]
        exact ihrest opened path (total + 1)
      · rw [add_zero]
        exact ihrest opened path total

/-! ## Main result -/

/-- a directory below the argument that `getFileNum` can enter: its path fits the array, and it can be opened beside the
directories above it -/
def Entry.Enterable (limit : ℕ) (e : Entry) : Prop :=
  e.path.length < pathSize ∧ e.readable = true ∧ e.depth < limit

theorem failure_none_iff {limit : ℕ} {e : Entry} : e.failure limit = none ↔ (e.dType = 4 → e.Enterable limit) := by
  unfold Entry.failure Entry.Enterable opendir
  by_cases hdir : e.dType = 4
  · simp only [hdir, if_true, true_imp_iff]
    by_cases hlong : pathSize ≤ e.path.length
    · simp [hlong]
    · simp [hlong]
      omega
  · simp [hdir]

theorem failure_overruns_iff {limit : ℕ} {e : Entry} :
    e.failure limit = some .overruns ↔ e.dType = 4 ∧ pathSize ≤ e.path.length := by
  unfold Entry.failure
  split_ifs with hdir hlong hopen
  · exact ⟨fun _ => ⟨hdir, hlong⟩, fun _ => rfl⟩
  · exact ⟨nofun, fun h => absurd h.2 hlong⟩
  · exact ⟨nofun, fun h => absurd h.2 hlong⟩
  · exact ⟨nofun, fun h => absurd h.1 hdir⟩

/-- **What the program prints.** For every directory tree, every path to it and every limit on open directories:
`getFileNum` returns n if and only if the directory can be opened, every directory below it has a path of fewer than 256
bytes and can be opened beside those above it, and n is the number of regular files below, as an `int`. It writes outside
`newpath` if and only if the directory can be opened and, in the order of the walk, the first directory below that cannot
be entered has a path of 256 bytes or more. -/
theorem getFileNum_iff (limit : ℕ) (path : Bytes) (readable : Bool) (entries : Listing) :
    (∀ n, getFileNum limit 0 path readable entries = .ok n ↔
      opendir limit 0 readable = true ∧ (∀ e ∈ below 1 path entries, e.dType = 4 → e.Enterable limit) ∧
        n = int32 (regularFiles (below 1 path entries))) ∧
    (getFileNum limit 0 path readable entries = .error .overruns ↔
      opendir limit 0 readable = true ∧ ∃ before e rest, below 1 path entries = before ++ e :: rest ∧
        (∀ x ∈ before, x.dType = 4 → x.Enterable limit) ∧ e.dType = 4 ∧ pathSize ≤ e.path.length) := by
  have hloop := readLoop_eq limit entries 1 path 0
  rw [show int32 0 = 0 from rfl] at hloop
  unfold getFileNum
  rw [Nat.zero_add, hloop]
  cases hopen : opendir limit 0 readable with
  | false => simp
  | true =>
    simp only [if_true, true_and, outcome_ok_iff, outcome_error_iff, failure_none_iff, failure_overruns_iff, implies_true]

/-- a directory with two files, one of them in a subdirectory, and a link -/
example : getFileNum 2 0 (ascii "d") true
    (.cons (ascii ".") 4 true .nil (.cons (ascii "a") 8 true .nil (.cons (ascii "s") 4 true
      (.cons (ascii "b") 8 true .nil (.cons (ascii "l") 10 true .nil .nil)) .nil))) = .ok 2 := by decide +kernel

end WebServer.Lesson15
