/-
The list of nodes behind `head`, shared by the two producer-consumer programs (lesson30/semaphore.c and lesson30/cond.c).

The list is modelled as the nodes reached from `head`; a null pointer is the empty list. A node carries its number in
the order of production next to its `num`: `malloc` may hand out a freed address again, and two nodes may have the same
`num`. `produced` and `removed` record the nodes in the order in which they enter and leave the list.

- `Conserved`: the nodes produced are exactly those removed and those still in the list, and no two of them are the same.
-/
import Mathlib.Tactic

namespace WebServer.Lesson30

structure Node where
  serial : ℕ
  num : ℕ
deriving DecidableEq, Repr

structure Nodes where
  head : List Node
  produced : List Node
  removed : List Node
deriving DecidableEq, Repr

def Nodes.empty : Nodes := ⟨[], [], []⟩

/-- the two kinds of threads that `main` creates -/
inductive Role where
  | producer
  | customer
deriving DecidableEq, Repr

/-- `head = newnode; newnode->num = rand() % 256;`, where `newnode->next` is `next` -/
def Nodes.insert (n : Nodes) (next : List Node) (rand : ℕ) : Nodes :=
  let newnode : Node := ⟨n.produced.length, rand % 256⟩
  { n with head := newnode :: next, produced := n.produced ++ [newnode] }

/-- `head = head->next; free(tmp);`, undefined if `head` or `tmp` is null -/
def Nodes.unlink (n : Nodes) (tmp : Option Node) : Option Nodes :=
  match n.head, tmp with
  | _ :: rest, some node => some { n with head := rest, removed := n.removed ++ [node] }
  | _, _ => none

/-! ## No node is lost or removed twice -/

structure Conserved (n : Nodes) : Prop where
  perm : (n.removed ++ n.head).Perm n.produced
  serials : n.produced.map Node.serial = List.range n.produced.length

theorem conserved_empty : Conserved Nodes.empty where
  perm := List.Perm.refl []
  serials := rfl

theorem Conserved.nodup {n : Nodes} (h : Conserved n) : n.produced.Nodup := by
  apply List.Nodup.of_map Node.serial
  rw [h.serials]
  exact List.nodup_range

theorem Conserved.insert {n : Nodes} (h : Conserved n) (rand : ℕ) : Conserved (n.insert n.head rand) where
  perm := by
    let newnode : Node := ⟨n.produced.length, rand % 256⟩
    calc List.Perm (n.removed ++ newnode :: n.head) (newnode :: (n.removed ++ n.head)) := List.perm_middle
      List.Perm _ (newnode :: n.produced) := h.perm.cons newnode
      List.Perm _ (n.produced ++ [newnode]) := (List.perm_append_singleton newnode n.produced).symm
  serials := by
    simp [Nodes.insert, h.serials, List.range_succ]

theorem Conserved.unlink {n n' : Nodes} (h : Conserved n) (hn : n.unlink n.head.head? = some n') : Conserved n' := by
  unfold Nodes.unlink at hn
  split at hn
  · rename_i node rest tmp hhead htmp
    rw [hhead] at htmp
    cases htmp
    cases hn
    refine ⟨?_, h.serials⟩
    have hperm := h.perm
    rw [hhead, List.append_cons] at hperm
    exact hperm
  · cases hn

theorem Nodes.unlink_isSome {n : Nodes} (h : n.head ≠ []) : ∃ n', n.unlink n.head.head? = some n' := by
  unfold Nodes.unlink
  obtain ⟨node, rest, hhead⟩ := List.exists_cons_of_ne_nil h
  rw [hhead]
  exact ⟨_, rfl⟩

theorem Nodes.unlink_length {n n' : Nodes} {tmp : Option Node} (h : n.unlink tmp = some n') :
    n'.head.length + 1 = n.head.length := by
  unfold Nodes.unlink at h
  split at h
  · rename_i node rest tmp' hhead
    cases h
    rw [hhead]
    rfl
  · cases h

end WebServer.Lesson30
