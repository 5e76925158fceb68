/-
When NO_REQUEST is the right answer: the bytes received so far can still become a request.

`requestSoFar p` says, line by line, that `p` is the beginning of a well-formed request and stops at a line end or in the
body. The parser asks for less: it does not look at a line before its CR LF is there, it waits at a CR that is followed
by something else and at a lone LF, and it takes any header line.

- `soFar_iff`: such bytes have a continuation to a well-formed request if and only if `requestSoFar` says so.
- `Tracks`: what the parser has passed of the bytes received, over all calls of `processRead`.
- `waiting_helps_iff`: after every call that answers NO_REQUEST, there is a continuation if and only if `requestSoFar`.
- `waiting_in_vain`: a CR before another byte, answered with NO_REQUEST.
-/
import WebServer.HttpConn.Complete
import WebServer.HttpConn.Session

namespace WebServer.HttpConn

open WebServer

/-! ## The beginning of a request -/

/-- a request line of the grammar -/
def lineOk (l : Bytes) : Bool := decide ((0 : UInt8) ∉ l ∧ (requestTarget l).1 = .noRequest)

/-- a header line of the grammar -/
def headerOk (h : Bytes) : Bool :=
  !h.isEmpty && h.all (fun b => inLine b && b != 0) &&
    (lengthField h).all fun v => !v.isEmpty && v.all isDigit

/-- the length of the body after a header line, if it was `n` before -/
def lengthOf (n : ℕ) (h : Bytes) : ℕ := ((lengthField h).map digitsVal).getD n

/-- header lines, and what is there of the body. `n` is the length of the body so far. -/
def fieldsSoFar (n : ℕ) (rest : Bytes) : Bool :=
  match h : nextLine rest with
  | .complete l rest' =>
    if l = [] then decide (rest'.length ≤ n) else headerOk l && fieldsSoFar (lengthOf n l) rest'
  | .waiting l => decide (l = []) || headerOk l
  | .malformed _ => false
  | .runOut _ => false
termination_by rest.length
decreasing_by rw [(nextLine_complete_inv h).1]; simp; omega

def requestSoFar (p : Bytes) : Bool :=
  match nextLine p with
  | .complete l rest => lineOk l && fieldsSoFar 0 rest
  | .waiting l => lineOk l
  | .malformed _ => false
  | .runOut _ => false

theorem fieldsSoFar_complete {n : ℕ} {rest l rest' : Bytes} (h : nextLine rest = .complete l rest') :
    fieldsSoFar n rest =
      if l = [] then decide (rest'.length ≤ n) else headerOk l && fieldsSoFar (lengthOf n l) rest' := by
  rw [fieldsSoFar]; split <;> simp_all

theorem fieldsSoFar_waiting {n : ℕ} {rest l : Bytes} (h : nextLine rest = .waiting l) :
    fieldsSoFar n rest = (decide (l = []) || headerOk l) := by
  rw [fieldsSoFar]; split <;> simp_all

/-- the lines of the head, as far as the parser looks at them: they end before the bytes run out -/
def stopsFields (rest : Bytes) : Bool :=
  match h : nextLine rest with
  | .complete l rest' => if cText l = [] then true else stopsFields rest'
  | .waiting _ => true
  | .malformed _ => true
  | .runOut _ => false
termination_by rest.length
decreasing_by rw [(nextLine_complete_inv h).1]; simp; omega

def stopsHead (p : Bytes) : Bool :=
  match nextLine p with
  | .complete _ rest => stopsFields rest
  | .waiting _ => true
  | .malformed _ => true
  | .runOut _ => false

theorem stopsFields_complete {rest l rest' : Bytes} (h : nextLine rest = .complete l rest') :
    stopsFields rest = if cText l = [] then true else stopsFields rest' := by
  rw [stopsFields]; split <;> simp_all

theorem stopsFields_stop {rest l : Bytes} (h : nextLine rest = .waiting l ∨ nextLine rest = .malformed l) :
    stopsFields rest = true := by
  rw [stopsFields]; split <;> simp_all

theorem stopsFields_runOut {rest l : Bytes} (h : nextLine rest = .runOut l) : stopsFields rest = false := by
  rw [stopsFields]; split <;> simp_all

/-! ## Continuations -/

/-- what is there of a line that will be complete -/
theorem nextLine_of_complete_append {p x l rest : Bytes} (h : nextLine (p ++ x) = .complete l rest) :
    (∃ rest', nextLine p = .complete l rest' ∧ rest = rest' ++ x) ∨ nextLine p = .waiting l ∨
      nextLine p = .runOut p := by
  rcases nextLine_cases p with ⟨l', r, hn, -, -⟩ | ⟨l', hn, rfl, hc⟩ | ⟨l', t, hn, rfl, hc, ht⟩ | ⟨hn, -⟩
  · obtain ⟨rfl, rfl⟩ := Line.complete.inj (h.symm.trans (nextLine_complete_append hn x))
    exact Or.inl ⟨r, hn, rfl⟩
  · -- the byte after the CR decides
    right; left
    rw [List.append_assoc, List.singleton_append] at h
    cases x with
    | nil => cases h.symm.trans (nextLine_waiting hc)
    | cons y x =>
      by_cases hy : y = lf
      · subst hy
        obtain ⟨rfl, -⟩ := Line.complete.inj (h.symm.trans (nextLine_complete hc x))
        exact hn
      · cases h.symm.trans (nextLine_malformed hc (Or.inl ⟨y, x, rfl, hy⟩))
  · rw [List.append_assoc] at h
    have hstill : (∃ y u, t ++ x = cr :: y :: u ∧ y ≠ lf) ∨ ∃ u, t ++ x = lf :: u := by
      rcases ht with ⟨y, u, rfl, hy⟩ | ⟨u, rfl⟩
      · exact Or.inl ⟨y, u ++ x, rfl, hy⟩
      · exact Or.inr ⟨u ++ x, rfl⟩
    cases h.symm.trans (nextLine_malformed hc hstill)
  · exact Or.inr (Or.inr hn)

theorem headerOk_iff {h : Bytes} : headerOk h = true ↔ h ≠ [] ∧ (∀ b ∈ h, inLine b = true ∧ b ≠ 0) ∧
    ∀ v, lengthField h = some v → v ≠ [] ∧ ∀ d ∈ v, isDigit d = true := by
  simp [headerOk, and_assoc, Option.all_eq_true]

/-- the head and the body from the header lines on -/
def tailBytes (hs : List Bytes) (body : Bytes) : Bytes := (hs.map (· ++ crlf)).flatten ++ crlf ++ body

theorem tailBytes_nil (body : Bytes) : tailBytes [] body = [] ++ cr :: lf :: body := rfl

theorem tailBytes_cons (h : Bytes) (hs : List Bytes) (body : Bytes) :
    tailBytes (h :: hs) body = h ++ cr :: lf :: tailBytes hs body := by
  simp [tailBytes, crlf]

theorem fieldsSoFar_of_prefix {hs : List Bytes} {body : Bytes} (hh : ∀ h ∈ hs, headerOk h = true) {n : ℕ}
    (hb : body.length = hs.foldl lengthOf n) {p x : Bytes} (hp : tailBytes hs body = p ++ x)
    (hstop : stopsFields p = true) : fieldsSoFar n p = true := by
  induction hs generalizing n p with
  | nil =>
    have hn : nextLine (p ++ x) = .complete [] body := by
      rw [← hp, tailBytes_nil]
      exact nextLine_complete (fun _ hb => absurd hb List.not_mem_nil) body
    rcases nextLine_of_complete_append hn with ⟨rest, hn', rfl⟩ | hn' | hn'
    · rw [fieldsSoFar_complete hn', if_pos rfl, decide_eq_true_eq]
      rw [List.length_append] at hb
      exact le_of_le_of_eq (Nat.le_add_right _ _) hb
    · rw [fieldsSoFar_waiting hn']
      rfl
    · rw [stopsFields_runOut hn'] at hstop
      cases hstop
  | cons h hs ih =>
    obtain ⟨hne, hbytes, hlen⟩ := headerOk_iff.1 (hh h List.mem_cons_self)
    have hn : nextLine (p ++ x) = .complete h (tailBytes hs body) := by
      rw [← hp, tailBytes_cons]
      exact nextLine_complete (fun b hb => (hbytes b hb).1) _
    rcases nextLine_of_complete_append hn with ⟨rest, hn', hrest⟩ | hn' | hn'
    · have htext : cText h = h := cText_eq_self fun hz => (hbytes 0 hz).2 rfl
      rw [stopsFields_complete hn', htext, if_neg hne] at hstop
      rw [fieldsSoFar_complete hn', if_neg hne, hh h List.mem_cons_self, Bool.true_and]
      exact ih (fun h' hh' => hh h' (List.mem_cons_of_mem _ hh')) hb hrest hstop
    · rw [fieldsSoFar_waiting hn', hh h List.mem_cons_self, Bool.or_true]
    · rw [stopsFields_runOut hn'] at hstop
      cases hstop

theorem fieldsSoFar_extends (k : ℕ) {n : ℕ} {p : Bytes} (hk : p.length = k) (h : fieldsSoFar n p = true) :
    ∃ hs body, (∀ h ∈ hs, headerOk h = true) ∧ body.length = hs.foldl lengthOf n ∧ p <+: tailBytes hs body := by
  induction k using Nat.strong_induction_on generalizing n p with
  | _ k ih =>
    rcases nextLine_cases p with ⟨l, rest, hn, hp, -⟩ | ⟨l, hn, hp, -⟩ | ⟨l, t, hn, -⟩ | ⟨hn, -⟩
    · rw [fieldsSoFar_complete hn] at h
      split_ifs at h with hl
      · -- the empty line: the body is filled up to its length
        subst hl
        have hle : rest.length ≤ n := of_decide_eq_true h
        refine ⟨[], rest ++ List.replicate (n - rest.length) 0, nofun, ?_, List.replicate (n - rest.length) 0, ?_⟩
        · rw [List.length_append, List.length_replicate, Nat.add_sub_cancel' hle]
          rfl
        · rw [hp, tailBytes_nil]
          simp
      · obtain ⟨hok, hrest⟩ := Bool.and_eq_true_iff.1 h
        have hlt : rest.length < k := by rw [← hk, hp]; simp; omega
        obtain ⟨hs, body, hh, hb, x, hx⟩ := ih rest.length hlt rfl hrest
        refine ⟨l :: hs, body, List.forall_mem_cons.2 ⟨hok, hh⟩, hb, x, ?_⟩
        rw [tailBytes_cons, ← hx, hp]
        simp
    · rw [fieldsSoFar_waiting hn] at h
      rcases eq_or_ne l [] with rfl | hl
      · refine ⟨[], List.replicate n 0, nofun, List.length_replicate, lf :: List.replicate n 0, ?_⟩
        rw [hp, tailBytes_nil]
        rfl
      · have hok : headerOk l = true := by simpa [hl] using h
        refine ⟨[l], List.replicate (lengthOf n l) 0, by simpa using hok, List.length_replicate,
          lf :: tailBytes [] (List.replicate (lengthOf n l) 0), ?_⟩
        rw [hp, tailBytes_cons]
        simp
    · rw [fieldsSoFar, hn] at h
      cases h
    · rw [fieldsSoFar, hn] at h
      cases h

namespace Request

theorem bytes_eq (q : Request) : q.bytes = q.line ++ cr :: lf :: tailBytes q.headers q.body := by
  simp [bytes, tailBytes, crlf]

theorem contentLength_eq (q : Request) : q.contentLength = q.headers.foldl lengthOf 0 :=
  (foldl_field lengthField digitsVal q.headers 0).symm

theorem WellFormed.lineOk {q : Request} (h : q.WellFormed) : lineOk q.line = true := by
  obtain ⟨off, htarget⟩ := h.requestTarget
  refine decide_eq_true ⟨fun hz => (h.line_byte hz).2 rfl, ?_⟩
  rw [htarget]

theorem WellFormed.headerOk {q : Request} (h : q.WellFormed) : ∀ l ∈ q.headers, headerOk l = true := by
  intro l hl
  exact headerOk_iff.2 ⟨(h.header_line l hl).1, (h.header_line l hl).2, h.header_length l hl⟩

/-- the parts of a request, put together -/
theorem exists_wellFormed {l : Bytes} (hl : HttpConn.lineOk l = true) (hc : Clean l) {hs : List Bytes}
    (hh : ∀ h ∈ hs, HttpConn.headerOk h = true) {body : Bytes} (hb : body.length = hs.foldl lengthOf 0) :
    ∃ q : Request, q.WellFormed ∧ q.bytes = l ++ cr :: lf :: tailBytes hs body := by
  obtain ⟨hzero, htarget⟩ := of_decide_eq_true hl
  obtain ⟨m, s₁, u, s₂, v, hline⟩ := (requestTarget_iff l).1 htarget
  let q : Request := ⟨m, s₁, u, s₂, v, hs, body⟩
  have hmem : ∀ b ∈ u, b ∈ l := by
    intro b hbu
    rw [hline.text]
    simp [hbu]
  refine ⟨q, ⟨hline.method, hline.blank1, hline.blank2, hline.version, ?_, hline.target, ?_, ?_, ?_⟩, ?_⟩
  · intro b hbu
    exact ⟨hline.target_word b hbu, hc b (hmem b hbu), fun hz => hzero (hz ▸ hmem b hbu)⟩
  · intro h hmemh
    exact ⟨(headerOk_iff.1 (hh h hmemh)).1, (headerOk_iff.1 (hh h hmemh)).2.1⟩
  · intro h hmemh
    exact (headerOk_iff.1 (hh h hmemh)).2.2
  · rw [contentLength_eq]
    exact hb
  · rw [bytes_eq, hline.text]
    rfl

end Request

/-- **Bytes that stop at a line end or in the body have a continuation exactly when `requestSoFar` says so.** -/
theorem soFar_iff {p : Bytes} (hstop : stopsHead p = true) :
    (∃ q : Request, q.WellFormed ∧ p <+: q.bytes) ↔ requestSoFar p = true := by
  constructor
  · rintro ⟨q, hq, x, hx⟩
    have hclean : Clean q.line := fun b hb => (hq.line_byte hb).1
    have hn : nextLine (p ++ x) = .complete q.line (tailBytes q.headers q.body) := by
      rw [hx, q.bytes_eq]
      exact nextLine_complete hclean _
    unfold stopsHead at hstop
    unfold requestSoFar
    rcases nextLine_of_complete_append hn with ⟨rest, hn', hrest⟩ | hn' | hn'
    · rw [hn'] at hstop ⊢
      dsimp only at hstop ⊢
      rw [hq.lineOk, Bool.true_and]
      exact fieldsSoFar_of_prefix hq.headerOk (hq.body.trans q.contentLength_eq) hrest hstop
    · rw [hn']
      exact hq.lineOk
    · rw [hn'] at hstop
      cases hstop
  · intro h
    unfold requestSoFar at h
    rcases nextLine_cases p with ⟨l, rest, hn, hp, hc⟩ | ⟨l, hn, hp, hc⟩ | ⟨l, t, hn, -⟩ | ⟨hn, -⟩
    · rw [hn] at h
      obtain ⟨hl, hfields⟩ := Bool.and_eq_true_iff.1 h
      obtain ⟨hs, body, hh, hb, x, hx⟩ := fieldsSoFar_extends rest.length rfl hfields
      obtain ⟨q, hq, hbytes⟩ := Request.exists_wellFormed hl hc hh hb
      refine ⟨q, hq, x, ?_⟩
      rw [hbytes, ← hx, hp]
      simp
    · rw [hn] at h
      have hheaders : ∀ h ∈ ([] : List Bytes), headerOk h = true := fun _ hmem => absurd hmem List.not_mem_nil
      have hbody : ([] : Bytes).length = ([] : List Bytes).foldl lengthOf 0 := rfl
      obtain ⟨q, hq, hbytes⟩ := Request.exists_wellFormed h hc hheaders hbody
      refine ⟨q, hq, lf :: tailBytes [] [], ?_⟩
      rw [hbytes, hp]
      simp
    · rw [hn] at h
      cases h
    · rw [hn] at h
      cases h

/-! ## What the parser has passed -/

theorem stopsHead_complete {p l rest : Bytes} (h : nextLine p = .complete l rest) : stopsHead p = stopsFields rest := by
  unfold stopsHead
  rw [h]

theorem stopsHead_stop {p l : Bytes} (h : nextLine p = .waiting l ∨ nextLine p = .malformed l) : stopsHead p = true := by
  unfold stopsHead
  rcases h with h | h
  all_goals rw [h]

/-- a line that goes on where the scanner stands -/
theorem nextLine_resume_complete {m s l rest : Bytes} (hm : Clean m) (h : nextLine s = .complete l rest) (x : Bytes) :
    nextLine (m ++ s ++ x) = .complete (m ++ l) (rest ++ x) := by
  rw [List.append_assoc, nextLine_skip hm, nextLine_complete_append h x]
  rfl

theorem nextLine_resume_stop {m s l : Bytes} (hm : Clean m) (h : nextLine s = .waiting l ∨ nextLine s = .malformed l) :
    nextLine (m ++ s) = .waiting (m ++ l) ∨ nextLine (m ++ s) = .malformed (m ++ l) := by
  rw [nextLine_skip hm]
  rcases h with h | h
  · rw [h]
    exact Or.inl rfl
  · rw [h]
    exact Or.inr rfl

namespace Stream

/-- `a` is where the parser stands in the bytes `p`: at the request line, which has not ended; at the header lines, which
begin where the lines of `p` that were passed end; or behind the empty line -/
def Tracks (p : Bytes) (a : Stream) : Prop :=
  match a.state with
  | .requestLine => Clean a.scanned ∧ p = a.scanned ++ a.rest
  | .header => Clean a.scanned ∧ ∀ x, stopsHead (p ++ x) = stopsFields (a.scanned ++ a.rest ++ x)
  | .content => ∀ x, stopsHead (p ++ x) = true

/-- the parser has taken the end of the bytes for a line end; it does not return NO_REQUEST any more -/
def Lost (a : Stream) : Prop := a.state ≠ .requestLine ∧ a.rest = []

variable {p : Bytes} {a b : Stream}

theorem tracks_requestLine (hs : a.state = .requestLine) : Tracks p a ↔ Clean a.scanned ∧ p = a.scanned ++ a.rest := by
  unfold Tracks
  rw [hs]

theorem tracks_header (hs : a.state = .header) :
    Tracks p a ↔ Clean a.scanned ∧ ∀ x, stopsHead (p ++ x) = stopsFields (a.scanned ++ a.rest ++ x) := by
  unfold Tracks
  rw [hs]

theorem tracks_content (hs : a.state = .content) : Tracks p a ↔ ∀ x, stopsHead (p ++ x) = true := by
  unfold Tracks
  rw [hs]

theorem Tracks.load (h : Tracks p a) (q : Bytes) : Tracks (p ++ q) (a.load q) := by
  have hload : (a.load q).state = a.state := rfl
  cases hs : a.state with
  | requestLine =>
    rw [tracks_requestLine (hload.trans hs)]
    rw [tracks_requestLine hs] at h
    refine ⟨h.1, ?_⟩
    rw [h.2]
    exact List.append_assoc _ _ _
  | header =>
    rw [tracks_header (hload.trans hs)]
    rw [tracks_header hs] at h
    refine ⟨h.1, fun x => ?_⟩
    rw [List.append_assoc, h.2]
    simp only [Stream.load, List.append_assoc]
  | content =>
    rw [tracks_content (hload.trans hs)]
    rw [tracks_content hs] at h
    intro x
    rw [List.append_assoc]
    exact h _

/-- a round that goes on, in its two halves -/
theorem round_inl {ls ls' : LineStatus} (h : round (ls, a) = .inl (ls', b)) : ∃ c, a.test ls = (.lineOk, c) ∧
    c.body.1 = .noRequest ∧ b = c.body.2 := by
  rw [round_eq] at h
  split_ifs at h with h1 h2
  have hb := congrArg Prod.snd (Sum.inl.inj h)
  exact ⟨(a.test ls).2, Prod.ext h1 rfl, h2, hb.symm⟩

theorem round_inr {ls : LineStatus} (h : round (ls, a) = .inr (.noRequest, b)) :
    (a.test ls).1 ≠ .lineOk ∧ b = (a.test ls).2 := by
  rw [round_eq] at h
  split_ifs at h with h1 h2
  · exact absurd (congrArg Prod.fst (Sum.inr.inj h)) h2
  · cases h
    exact ⟨h1, rfl⟩

/-- the handler of the head does not go back to the request line -/
theorem body_leaves {c : Stream} (hgo : c.body.1 = .noRequest) : c.body.2.state ≠ .requestLine := by
  obtain ⟨-, -, hstates⟩ := body_go hgo
  rcases hstates with hx | hx | hx | hx
  · rw [hx.2]
    decide
  · rw [hx.2]
    decide
  · rw [hx.2.1]
    decide
  · rw [hx.2, newLine, hx.1]
    decide

theorem Lost.test (h : Lost a) (ls : LineStatus) : ∃ c, a.test ls = (.lineOk, c) ∧ c.state = a.state ∧ c.rest = [] := by
  by_cases hls : a.state = .content ∧ ls = .lineOk
  · rw [hls.2, test_content hls.1]
    exact ⟨a, rfl, rfl, h.2⟩
  · rw [test_line (not_and_or.1 hls), h.2, nextLine_runOut (l := []) fun _ hb => absurd hb List.not_mem_nil]
    exact ⟨_, rfl, rfl, rfl⟩

theorem Lost.go {ls ls' : LineStatus} (h : Lost a) (hr : round (ls, a) = .inl (ls', b)) : Lost b := by
  obtain ⟨c, hc, hgo, rfl⟩ := round_inl hr
  obtain ⟨c', hc', hstate, hrest⟩ := h.test ls
  obtain rfl : c = c' := congrArg Prod.snd (hc.symm.trans hc')
  exact ⟨body_leaves hgo, (body_go hgo).2.1.trans hrest⟩

theorem Lost.not_stop {ls : LineStatus} (h : Lost a) : round (ls, a) ≠ .inr (.noRequest, b) := by
  intro hr
  obtain ⟨c, hc, -⟩ := h.test ls
  apply (round_inr hr).1
  rw [hc]

theorem body_header_state (hs : a.state = .header) (hgo : a.body.1 = .noRequest) :
    a.body.2.state = if cText a.scanned = [] then .content else .header := by
  rw [body_header hs] at hgo ⊢
  by_cases htext : cText a.scanned = []
  · rw [if_pos htext] at hgo
    simp only [if_pos htext]
    split_ifs at hgo with hlen
    rw [if_pos hlen]
  · rw [if_neg htext] at hgo
    simp only [if_neg htext]
    split_ifs at hgo with hf
    rw [if_neg hf]
    exact (field_pos _ _ _).2.2.2.1.trans hs

/-- a line of the head that ended -/
theorem Tracks.passed {l rest : Bytes} (h : Tracks p a) (hs : a.state ≠ .content) (hn : nextLine a.rest = .complete l rest)
    (hgo : (a.passed l rest).body.1 = .noRequest) : Tracks p (a.passed l rest).body.2 := by
  obtain ⟨hscan, hrest, hstates⟩ := body_go hgo
  have hclean : Clean (a.passed l rest).body.2.scanned := by
    rw [hscan]
    exact fun _ hb => absurd hb List.not_mem_nil
  cases hstate : a.state with
  | requestLine =>
    rw [tracks_requestLine hstate] at h
    have hheader : (a.passed l rest).body.2.state = .header := by
      rcases hstates with hx | hx | hx | hx
      · exact hx.2
      all_goals cases hstate.symm.trans hx.1
    rw [tracks_header hheader]
    refine ⟨hclean, fun x => ?_⟩
    rw [h.2, stopsHead_complete (nextLine_resume_complete h.1 hn x), hscan, hrest]
    rfl
  | header =>
    rw [tracks_header hstate] at h
    have hnext := body_header_state (a := a.passed l rest) hstate hgo
    rw [cText_passed_line] at hnext
    split_ifs at hnext with htext
    · rw [tracks_content hnext]
      intro x
      rw [h.2, stopsFields_complete (nextLine_resume_complete h.1 hn x), if_pos htext]
    · rw [tracks_header hnext]
      refine ⟨hclean, fun x => ?_⟩
      rw [h.2, stopsFields_complete (nextLine_resume_complete h.1 hn x), if_neg htext, hscan, hrest]
      rfl
  | content => exact absurd hstate hs

theorem Tracks.go {ls ls' : LineStatus} (h : Tracks p a) (hr : round (ls, a) = .inl (ls', b)) : Tracks p b ∨ Lost b := by
  obtain ⟨c, hc, hgo, rfl⟩ := round_inl hr
  by_cases hcontent : a.state = .content
  · left
    have hstate : c.state = .content := by rw [← hcontent, ← test_state ls a, hc]
    rw [tracks_content hcontent] at h
    obtain ⟨-, -, hx | hx | hx | hx⟩ := body_go hgo
    all_goals try cases hstate.symm.trans hx.1
    rw [hx.2]
    exact (tracks_content (a := c.newLine) hstate).2 h
  · rw [test_line (Or.inl hcontent)] at hc
    rcases nextLine_cases a.rest with ⟨l, rest, hn, -⟩ | ⟨l, hn, -⟩ | ⟨l, t, hn, -⟩ | ⟨hn, -⟩
    · rw [hn] at hc
      obtain rfl : a.passed l rest = c := congrArg Prod.snd hc
      exact Or.inl (h.passed hcontent hn hgo)
    · rw [hn] at hc
      cases congrArg Prod.fst hc
    · rw [hn] at hc
      cases congrArg Prod.fst hc
    · rw [hn] at hc
      obtain rfl : a.moved a.rest [] = c := congrArg Prod.snd hc
      exact Or.inr ⟨body_leaves hgo, (body_go hgo).2.1⟩

/-- the scanner stops in the head -/
theorem test_stop {ls : LineStatus} (hs : a.state ≠ .content) (hne : (a.test ls).1 ≠ .lineOk) :
    ∃ l t, (nextLine a.rest = .waiting l ∨ nextLine a.rest = .malformed l) ∧ (a.test ls).2 = a.moved l t ∧
      Clean l ∧ a.rest = l ++ t := by
  rw [test_line (Or.inl hs)] at hne ⊢
  rcases nextLine_cases a.rest with ⟨l, rest, hn, -⟩ | ⟨l, hn, -⟩ | ⟨l, t, hn, -⟩ | ⟨hn, -⟩
  · rw [hn] at hne
    exact absurd rfl hne
  · obtain ⟨hc, hrest, -⟩ := nextLine_stop_inv (Or.inl hn)
    refine ⟨l, a.rest.drop l.length, Or.inl hn, ?_, hc, hrest⟩
    rw [hn]
    rfl
  · obtain ⟨hc, hrest, -⟩ := nextLine_stop_inv (Or.inr hn)
    refine ⟨l, a.rest.drop l.length, Or.inr hn, ?_, hc, hrest⟩
    rw [hn]
    rfl
  · rw [hn] at hne
    exact absurd rfl hne

theorem Tracks.stop {ls : LineStatus} (h : Tracks p a) (hr : round (ls, a) = .inr (.noRequest, b)) :
    Tracks p b ∧ stopsHead p = true := by
  obtain ⟨hne, rfl⟩ := round_inr hr
  have hstate := test_state ls a
  cases hs : a.state with
  | requestLine =>
    obtain ⟨l, t, hn, hmoved, hl, hrest⟩ := test_stop (by rw [hs]; decide) hne
    rw [tracks_requestLine (hstate.trans hs), hmoved]
    obtain ⟨hc, rfl⟩ := (tracks_requestLine hs).1 h
    refine ⟨⟨hc.append hl, ?_⟩, stopsHead_stop (nextLine_resume_stop hc hn)⟩
    rw [hrest]
    exact (List.append_assoc _ _ _).symm
  | header =>
    obtain ⟨l, t, hn, hmoved, hl, hrest⟩ := test_stop (by rw [hs]; decide) hne
    rw [tracks_header (hstate.trans hs), hmoved]
    obtain ⟨hc, hlines⟩ := (tracks_header hs).1 h
    refine ⟨⟨hc.append hl, fun x => ?_⟩, ?_⟩
    · rw [hlines, hrest]
      simp only [moved, List.append_assoc]
    · have hnil := hlines []
      rw [List.append_nil, List.append_nil] at hnil
      rw [hnil]
      exact stopsFields_stop (nextLine_resume_stop hc hn)
  | content =>
    rw [tracks_content hs] at h
    have hnil := h []
    rw [List.append_nil] at hnil
    exact ⟨(tracks_content (hstate.trans hs)).2 h, hnil⟩

end Stream

/-! ## Sessions -/

namespace Session

variable {s t : Session}

/-- the parser follows the lines of the bytes received, or is in a call that does not return NO_REQUEST -/
def Follows (s : Session) : Prop :=
  s.request.stream.Tracks s.received ∨ (s.status ≠ none ∧ s.request.stream.Lost)

/-- a round of a session is a round of the stream parser -/
theorem step_round_stream (h : Valid s) (hs : s.step .round = some t) : t.received = s.received ∧
    ∃ ls, (∃ ls', t.status = some ls' ∧ Stream.round (ls, s.request.stream) = .inl (ls', t.request.stream)) ∨
      (t.status = none ∧ Stream.round (ls, s.request.stream) = .inr (.noRequest, t.request.stream)) := by
  obtain ⟨ls, -, hreceived, hround⟩ := step_loopRound hs
  refine ⟨hreceived, ls, ?_⟩
  have hrel := loopRound_stream ls h.inv
  rcases hround with ⟨ls', ht, hr⟩ | ⟨ht, hr⟩
  · rw [hr] at hrel
    obtain ⟨y, hy, hrel⟩ : ∃ y, Stream.round (ls, s.request.stream) = .inl y ∧ y = (ls', t.request.stream) := by
      generalize Stream.round (ls, s.request.stream) = z at hrel
      cases hrel with
      | inl hx => exact ⟨_, rfl, hx.2⟩
    exact Or.inl ⟨ls', ht, hrel ▸ hy⟩
  · rw [hr] at hrel
    generalize Stream.round (ls, s.request.stream) = z at hrel
    cases hrel with
    | @inr x y hx =>
      have hy : y = (.noRequest, t.request.stream) := Prod.ext hx.code.symm (hx.resume rfl).2.1.symm
      exact Or.inr ⟨ht, congrArg Sum.inr hy⟩

theorem Follows.step {m : Move} (hv : Valid s) (h : Follows s) (hs : s.step m = some t) : Follows t := by
  cases m with
  | read rs =>
    obtain ⟨q, rfl, hidle, -, hstream⟩ := hv.arrive hs
    have htracks := h.resolve_right fun hx => hx.1 hidle
    left
    dsimp only
    rw [hstream]
    exact htracks.load q
  | call =>
    obtain ⟨hidle, rfl⟩ := step_call hs
    exact Or.inl (h.resolve_right fun hx => hx.1 hidle)
  | round =>
    obtain ⟨hreceived, ls, ⟨ls', ht, hr⟩ | ⟨ht, hr⟩⟩ := step_round_stream hv hs
    · unfold Follows
      rw [hreceived, ht]
      rcases h with htracks | ⟨-, hlost⟩
      · exact (htracks.go hr).imp_right fun hx => ⟨nofun, hx⟩
      · exact Or.inr ⟨nofun, hlost.go hr⟩
    · rcases h with htracks | ⟨-, hlost⟩
      · left
        rw [hreceived]
        exact (htracks.stop hr).1
      · exact absurd hr hlost.not_stop

theorem run_follows {ms : List Move} (h : Run.exec step start ms = some s) : Valid s ∧ Follows s := by
  have hstart : Follows start := Or.inl ((Stream.tracks_requestLine rfl).2 ⟨fun _ hb => absurd hb List.not_mem_nil, rfl⟩)
  exact Run.exec_inv (I := fun s => Valid s ∧ Follows s) (fun _ _ _ hi hm => ⟨hi.1.step hm, hi.2.step hi.1 hm⟩)
    ⟨valid_start, hstart⟩ h

/-- a call that returns NO_REQUEST has passed complete lines only -/
theorem stopsHead_of_wait {ms : List Move} (h : Run.exec step start ms = some s) (hs : s.step .round = some t)
    (ht : t.status = none) : stopsHead t.received = true := by
  obtain ⟨hv, hfollows⟩ := run_follows h
  obtain ⟨hreceived, ls, ⟨ls', ht', -⟩ | ⟨-, hr⟩⟩ := step_round_stream hv hs
  · cases ht.symm.trans ht'
  · rw [hreceived]
    rcases hfollows with htracks | ⟨-, hlost⟩
    · exact (htracks.stop hr).2
    · exact absurd hr hlost.not_stop

/-- **When waiting can help.** Whenever `processRead` answers NO_REQUEST, in any session: the bytes received since `init()`
have a continuation that is a well-formed request, if and only if they are the beginning of one line by line. -/
theorem waiting_helps_iff {ms : List Move} (h : Run.exec step start ms = some s) (hs : s.step .round = some t)
    (ht : t.status = none) :
    (∃ q : Request, q.WellFormed ∧ t.received <+: q.bytes) ↔ requestSoFar t.received = true :=
  soFar_iff (stopsHead_of_wait h hs ht)

def waitRun : Option Session := Run.exec step start (arrival (ascii "GET / HTTP/1.1\r\nHost: a\r") ++ [.round])

theorem waitRun_isSome : waitRun.isSome = true := by decide +kernel

theorem waitRun_step : ((waitRun.get waitRun_isSome).step .round).isSome = true := by decide +kernel

theorem waiting_helps_waitRun :
    ∃ q : Request, q.WellFormed ∧ (((waitRun.get waitRun_isSome).step .round).get waitRun_step).received <+: q.bytes :=
  (waiting_helps_iff (Option.some_get waitRun_isSome).symm (Option.some_get waitRun_step).symm (by decide +kernel)).2
    (by decide +kernel)

def vainRun : Option Session := Run.exec step start (arrival (ascii "GET / HTTP/1.1\rX"))

theorem vainRun_isSome : vainRun.isSome = true := by decide +kernel

theorem vainRun_step : ((vainRun.get vainRun_isSome).step .round).isSome = true := by decide +kernel

/-- **A CR before another byte is answered with NO_REQUEST,** and nothing that follows makes a request of it. -/
theorem waiting_in_vain : (((vainRun.get vainRun_isSome).step .round).get vainRun_step).status = none ∧
    (((vainRun.get vainRun_isSome).step .round).get vainRun_step).received = ascii "GET / HTTP/1.1\rX" ∧
    ¬ ∃ q : Request, q.WellFormed ∧
      (((vainRun.get vainRun_isSome).step .round).get vainRun_step).received <+: q.bytes := by
  have ht : (((vainRun.get vainRun_isSome).step .round).get vainRun_step).status = none := by decide +kernel
  have hstops := stopsHead_of_wait (Option.some_get vainRun_isSome).symm (Option.some_get vainRun_step).symm ht
  refine ⟨ht, by decide +kernel, ?_⟩
  rw [soFar_iff hstops]
  decide +kernel

end Session

end WebServer.HttpConn
