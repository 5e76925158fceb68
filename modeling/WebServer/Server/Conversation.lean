/-
A whole conversation on one connection of the server.

A client sends request after request, each one after the answer to the one before, and asks for the connection to be kept.
The exchanges of this connection are spread over a run in which the main thread and the workers serve other connections
too.

- `SmoothAll`: in every exchange the response is sent to its end.
- `conversation_alone`: the object goes from one initialised state to the next, and the client gets answer after answer.
- `conversation_answered`: so it is in every run of the server without negative lengths, for a conversation of any
  length.
-/
import WebServer.Server.Answer

namespace WebServer.Server

open WebServer.HttpConn

/-! ## Exchanges one after the other -/

/-- the bytes that the kernel takes, exchange by exchange -/
def transmittedAll : Conn × List Call → List Exchange → Bytes
  | _, [] => []
  | x, e :: es =>
    transmitted e.file x e.uses ++
      match Run.exec useAlone x e.uses with
      | some y => transmittedAll y es
      | none => []

/-- in every exchange the response is sent to its end, without the jump in the header -/
def SmoothAll : Conn × List Call → List Exchange → Prop
  | _, [] => True
  | x, e :: es =>
    match Run.exec useAlone x e.uses with
    | some y => e.Smooth (y.2.drop x.2.length) ∧ SmoothAll y es
    | none => True

instance (x : Exchange) (log : List Call) : Decidable (x.Smooth log) :=
  decidable_of_iff (LegalLog log ∧ (counts log).sum = x.answer.length ∧
      noJump (answerHead x.fs x.request x.file).length 0 (counts log) = true)
    ⟨fun h => ⟨h.1, h.2.1, h.2.2⟩, fun h => ⟨h.legal, h.all, h.noJump⟩⟩

instance decidableSmoothAll : ∀ x es, Decidable (SmoothAll x es)
  | _, [] => .isTrue trivial
  | x, e :: es => by
    unfold SmoothAll
    cases Run.exec useAlone x e.uses with
    | none => exact .isTrue trivial
    | some y =>
      have : Decidable (SmoothAll y es) := decidableSmoothAll y es
      dsimp only
      infer_instance

/-- **A conversation on the object alone.** By induction on the exchanges: a kept connection is initialised again after
each of them. -/
theorem conversation_alone {es : List Exchange} {c : Conn} {calls : List Call} {y : Conn × List Call}
    (hfits : ∀ e ∈ es, e.Fits) (hkeep : ∀ e ∈ es.dropLast, e.request.keepAlive = true)
    (hrun : Run.exec useAlone (c.init, calls) (es.flatMap Exchange.uses) = some y)
    (hsmooth : SmoothAll (c.init, calls) es) :
    transmittedAll (c.init, calls) es = (es.map Exchange.answer).flatten := by
  induction es generalizing c calls with
  | nil => rfl
  | cons e es ih =>
    rw [List.flatMap_cons] at hrun
    obtain ⟨z, hz, hrest⟩ := Run.exec_append_some hrun
    have hfirst := hfits e List.mem_cons_self
    obtain ⟨log, hlog⟩ := exchange_calls hfirst hz
    rw [SmoothAll, hz] at hsmooth
    obtain ⟨hs, hnext⟩ := hsmooth
    have hdrop : z.2.drop calls.length = log := by rw [hlog, List.drop_left]
    rw [hdrop] at hs
    obtain ⟨hanswer, hagain⟩ := exchange_alone hfirst hz hlog hs
    have hothers : transmittedAll z es = (es.map Exchange.answer).flatten := by
      cases es with
      | nil => rfl
      | cons e' es =>
        -- another request follows, so the connection was kept
        obtain ⟨d, hd⟩ := hagain (hkeep e List.mem_cons_self)
        obtain ⟨z₁, z₂⟩ := z
        obtain rfl : z₁ = d.init := hd
        exact ih (fun x hx => hfits x (List.mem_cons_of_mem _ hx)) (fun x hx => hkeep x (List.mem_cons_of_mem _ hx)) hrest
          hnext
    rw [transmittedAll, hz, hanswer, List.map_cons, List.flatten_cons]
    exact congrArg (e.answer ++ ·) hothers

/-! ## The server -/

section Runs

variable {κ : Type*} [DecidableEq κ] [Fintype κ] {maxRequests : ℕ} {users : ℤ → Conn} {s s' : State κ} {fd : ℤ}

/-- **A conversation is answered.** In every run of the server without negative lengths: let a connection be initialised,
and let its part of the run be exchanges one after the other, each with a well-formed request of at most 2047 bytes in one
piece whose lengths the parser reads as they are meant, with a response that is sent to its end in any number of calls and
pieces, without an error and without the jump in the header, and, but for the last one, with a request to keep the
connection. Then the client has got the answers to all its requests, in their
order, and nothing else, whatever happens on the other connections meanwhile. -/
theorem conversation_answered {ops₀ ops : List (Op κ)} {es : List Exchange} {c : Conn}
    (hin₀ : Run.Along (Server.step maxRequests) (fun s op => lengthsInside s op = true) (State.start users) ops₀)
    (h₀ : Run.exec (Server.step maxRequests) (State.start users) ops₀ = some s) (hopen : fd ∈ s.opened)
    (hinit : s.users fd = c.init)
    (hin : Run.Along (Server.step maxRequests) (fun s op => lengthsInside s op = true) s ops)
    (h : Run.exec (Server.step maxRequests) s ops = some s') (hops : ∀ op ∈ ops, Spares fd op)
    (huses : Run.project (Server.step maxRequests) (State.uses fd) s ops = es.flatMap Exchange.uses)
    (hfits : ∀ e ∈ es, e.Fits) (hkeep : ∀ e ∈ es.dropLast, e.request.keepAlive = true)
    (hsmooth : SmoothAll (s.users fd, s.logs fd) es) :
    transmittedAll (s.users fd, s.logs fd) es = (es.map Exchange.answer).flatten := by
  obtain ⟨y, hexec, -⟩ := tracks_run (run_serving hin₀ h₀) hopen h hin hops
  rw [huses, hinit] at hexec
  rw [hinit] at hsmooth ⊢
  exact conversation_alone hfits hkeep hexec hsmooth

end Runs

/-- after the first answer the client sends its request again, and the file is shorter by now -/
def talkOps : List (Op Unit) := answerOps ++ [.epollWait [.client 5 readable],
  .handle ⟨none, [.data sampleRequest.bytes, .eagain], []⟩, .post, .wait (), .run (), .process () (plainFiles 4),
  .epollWait [.client 5 writable], .handle ⟨none, [], [.sent 90]⟩]

def talkState : Option (State Unit) := Run.exec (Server.step 1) (twoClients.get twoClients_isSome) talkOps

theorem talkState_isSome : talkState.isSome = true := by decide +kernel

def talk : List Exchange :=
  [⟨sampleRequest, plainFiles 10, ascii "0123456789", [[.sent 90, .eagain], [.sent 7]]⟩,
    ⟨sampleRequest, plainFiles 4, ascii "0123", [[.sent 90]]⟩]

theorem talk_fits : ∀ e ∈ talk, e.Fits := by
  intro e he
  rcases List.mem_cons.mp he with rfl | he
  · refine ⟨sampleRequest_wellFormed, sampleRequest_readable, by decide +kernel, fun st hst => ?_, by decide +kernel,
      by decide⟩
    obtain rfl := Option.some.inj hst
    decide +kernel
  · rw [List.mem_singleton.mp he]
    refine ⟨sampleRequest_wellFormed, sampleRequest_readable, by decide +kernel, fun st hst => ?_, by decide +kernel,
      by decide⟩
    obtain rfl := Option.some.inj hst
    decide +kernel

set_option maxRecDepth 20000 in
theorem conversation_answered_talk :
    transmittedAll ((twoClients.get twoClients_isSome).users 5, (twoClients.get twoClients_isSome).logs 5) talk =
      (talk.map Exchange.answer).flatten := by
  have hinit : (twoClients.get twoClients_isSome).users 5 = Conn.init { Conn.blank with sockfd := 5 } := rfl
  have hspares : ∀ op ∈ talkOps, Spares 5 op := by simp [talkOps, answerOps, Spares]
  have huses : Run.project (Server.step 1) (State.uses 5) (twoClients.get twoClients_isSome) talkOps =
      talk.flatMap Exchange.uses := rfl
  exact conversation_answered (by decide +kernel) (Option.some_get twoClients_isSome).symm (by decide +kernel) hinit
    (by decide +kernel) (Option.some_get talkState_isSome).symm hspares huses talk_fits (by decide +kernel)
    (by decide +kernel)

end WebServer.Server
