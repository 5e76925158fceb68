/-
The grammar of the request line.

`parseRequestLine` cuts the line in place: it writes a zero over the first blank, looks for the next blank in what is
left, and takes the rest for the version. `RequestLine` says which lines come through that.

- `requestTarget_iff`: exactly the lines of the grammar are accepted.
- `parseRequestLine_grammar`: verdict, state, url and untouched bytes of the function in the code.
- `parseRequestLine_version`: the version string lies inside the line.
- `parseRequestLine_url`: an accepted url begins with a slash.
-/
import WebServer.HttpConn.Refine

namespace WebServer.HttpConn

open WebServer

/-! ## Grammar -/

/-- `t` is a method, one blank, a target, one blank and the version -/
structure RequestLine (t m : Bytes) (s₁ : UInt8) (u : Bytes) (s₂ : UInt8) (v : Bytes) : Prop where
  text : t = m ++ s₁ :: (u ++ s₂ :: v)
  blank1 : s₁ ∈ blanks
  blank2 : s₂ ∈ blanks
  method_word : ∀ b ∈ m, b ∉ blanks
  target_word : ∀ b ∈ u, b ∉ blanks
  method : strcasecmp m (ascii "GET") = true
  version : strcasecmp v (ascii "HTTP/1.1") = true
  target : u.head? = some slash ∨ (strncasecmp u (ascii "http://") 7 = true ∧ slash ∈ u.drop 7)

/-- the target without "http://" and the host -/
def pathOf (u : Bytes) : Bytes :=
  if strncasecmp u (ascii "http://") 7 then (u.drop 7).dropWhile (· ≠ slash) else u

theorem not_http_of_slash {u : Bytes} (h : u.head? = some slash) : strncasecmp u (ascii "http://") 7 = false := by
  cases u with
  | nil => cases h
  | cons b t =>
    obtain rfl : b = slash := by simpa using h
    simp [strncasecmp, ascii, lower, slash]

theorem targetOf_accepts {off : ℕ} {u v : Bytes} (hv : strcasecmp v (ascii "HTTP/1.1") = true)
    (hu : u.head? = some slash ∨ (strncasecmp u (ascii "http://") 7 = true ∧ slash ∈ u.drop 7)) :
    ∃ k, targetOf off u v = (.noRequest, some (k, pathOf u)) := by
  unfold targetOf pathOf
  rw [if_pos hv]
  rcases hu with hs | ⟨hp, hs⟩
  · simp only [not_http_of_slash hs, Bool.false_eq_true, if_false, hs, if_true]
    exact ⟨_, rfl⟩
  · obtain ⟨k, hk⟩ := strchr_of_mem hs
    simp only [hp, if_true, hk, ← drop_strchr hk, List.drop_drop]
    exact ⟨_, rfl⟩

theorem targetOf_accepted {off : ℕ} {u v : Bytes} (h : (targetOf off u v).1 = .noRequest) :
    strcasecmp v (ascii "HTTP/1.1") = true ∧
      (u.head? = some slash ∨ (strncasecmp u (ascii "http://") 7 = true ∧ slash ∈ u.drop 7)) := by
  unfold targetOf at h
  split_ifs at h with hv hp hs
  · refine ⟨hv, Or.inr ⟨hp, ?_⟩⟩
    cases hk : strchr (u.drop 7) slash with
    | none => rw [hk] at h; cases h
    | some k => exact List.mem_of_mem_drop (List.mem_of_mem_head? (strchr_getElem hk).2)
  · exact ⟨hv, Or.inl hs⟩

theorem RequestLine.requestTarget {t m u v : Bytes} {s₁ s₂ : UInt8} (h : RequestLine t m s₁ u s₂ v) :
    ∃ k, requestTarget t = (.noRequest, some (k, pathOf u)) := by
  have h1 : strpbrk t blanks = some m.length := h.text ▸ strpbrk_append h.method_word h.blank1
  have h2 : strpbrk (u ++ s₂ :: v) blanks = some u.length := strpbrk_append h.target_word h.blank2
  have hdrop : t.drop (m.length + 1) = u ++ s₂ :: v := by simp [h.text, List.drop_append]
  have htake : t.take m.length = m := by simp [h.text]
  unfold HttpConn.requestTarget
  rw [h1]
  dsimp only
  rw [hdrop, htake, if_pos h.method, h2]
  dsimp only
  rw [List.take_left, show (u ++ s₂ :: v).drop (u.length + 1) = v by simp [List.drop_append]]
  exact targetOf_accepts h.version h.target

/-- **A line is accepted if and only if it has the form of the grammar.** -/
theorem requestTarget_iff (t : Bytes) :
    (requestTarget t).1 = .noRequest ↔ ∃ m s₁ u s₂ v, RequestLine t m s₁ u s₂ v := by
  constructor
  · intro h
    unfold requestTarget at h
    cases hi : strpbrk t blanks with
    | none => rw [hi] at h; cases h
    | some i =>
      obtain ⟨m, s₁, w, rfl, rfl, hs₁, hm⟩ := strpbrk_split hi
      rw [hi] at h
      dsimp only at h
      rw [List.take_left, show (m ++ s₁ :: w).drop (m.length + 1) = w by simp [List.drop_append]] at h
      split_ifs at h with hget
      cases hj : strpbrk w blanks with
      | none => rw [hj] at h; cases h
      | some j =>
        obtain ⟨u, s₂, v, rfl, rfl, hs₂, hu⟩ := strpbrk_split hj
        rw [hj] at h
        dsimp only at h
        rw [List.take_left, show (u ++ s₂ :: v).drop (u.length + 1) = v by simp [List.drop_append]] at h
        obtain ⟨hv, hform⟩ := targetOf_accepted h
        exact ⟨m, s₁, u, s₂, v, rfl, hs₁, hs₂, hm, hu, hget, hv, hform⟩
  · rintro ⟨m, s₁, u, s₂, v, h⟩
    obtain ⟨k, hk⟩ := h.requestTarget
    rw [hk]

/-! ## The code -/

theorem RequestLine.parse {text : ℕ} {r : ReadSide} {m u v : Bytes} {s₁ s₂ : UInt8}
    (h : RequestLine (r.readBuffer.cstr text) m s₁ u s₂ v) :
    (parseRequestLine text r).1 = .noRequest ∧ (parseRequestLine text r).2.checkState = .header ∧
      (parseRequestLine text r).2.url.map (parseRequestLine text r).2.readBuffer.cstr = some (pathOf u) := by
  obtain ⟨hcode, hurl, hstate⟩ := parseRequestLine_spec text r
  obtain ⟨k, hk⟩ := h.requestTarget
  rw [hk] at hcode hstate hurl
  refine ⟨hcode, hstate.trans (if_pos rfl), ?_⟩
  have hsnd := congrArg (Option.map Prod.snd) hurl
  rwa [ReadSide.span, Option.map_map] at hsnd

/-- **`parseRequestLine` accepts exactly its grammar.** For the string `t` at `text`: the answer is NO_REQUEST if and only
if `t` is a request line, and then the state is CHECK_STATE_HEADER and the string at `url` is the target, without
"http://" and the host. Otherwise the answer is BAD_REQUEST and the state stays. No byte outside `t` is changed. -/
theorem parseRequestLine_grammar (text : ℕ) (r : ReadSide) :
    ((parseRequestLine text r).1 = .noRequest ↔
      ∃ m s₁ u s₂ v, RequestLine (r.readBuffer.cstr text) m s₁ u s₂ v) ∧
    (∀ m s₁ u s₂ v, RequestLine (r.readBuffer.cstr text) m s₁ u s₂ v →
      (parseRequestLine text r).2.checkState = .header ∧
      (parseRequestLine text r).2.url.map (parseRequestLine text r).2.readBuffer.cstr = some (pathOf u)) ∧
    ((parseRequestLine text r).1 ≠ .noRequest →
      (parseRequestLine text r).1 = .badRequest ∧ (parseRequestLine text r).2.checkState = r.checkState) ∧
    (∀ k, k < text ∨ text + (r.readBuffer.cstr text).length ≤ k →
      (parseRequestLine text r).2.readBuffer.get k = r.readBuffer.get k) := by
  have hspec := parseRequestLine_spec text r
  have hcode := hspec.code
  have hstate := hspec.state
  refine ⟨?_, ?_, ?_, ?_⟩
  · rw [hcode]
    exact requestTarget_iff _
  · intro m s₁ u s₂ v h
    exact h.parse.2
  · intro hne
    rw [hcode] at hne
    rw [if_neg hne] at hstate
    exact ⟨hcode.trans ((requestTarget_code _).resolve_right hne), hstate⟩
  · intro k hk
    rcases hspec.zeroed k with h | ⟨-, h1, h2⟩
    · exact h
    · omega

theorem parseTarget_version (p v : ℕ) (r : ReadSide) : (parseTarget p v r).2.version = r.version := by
  unfold parseTarget
  dsimp only
  split_ifs
  · cases r.readBuffer.strchr (p + 7) slash with
    | none => rfl
    | some u => dsimp only; split_ifs <;> rfl
  · cases r.url with
    | none => rfl
    | some u => dsimp only; split_ifs <;> rfl
  · rfl

/-- the version string of an accepted line lies inside the line -/
theorem parseRequestLine_version {text : ℕ} {r r' : ReadSide} (h : parseRequestLine text r = (.noRequest, r')) :
    ∃ o, r'.version = some o ∧ o + (r'.readBuffer.cstr o).length ≤ text + (r.readBuffer.cstr text).length := by
  have hend : r'.readBuffer.get (text + (r.readBuffer.cstr text).length) = 0 := by
    have hspec := parseRequestLine_spec text r
    rw [h] at hspec
    rcases hspec.zeroed (text + (r.readBuffer.cstr text).length) with hz | hz
    · exact hz.trans (Buf.get_cstr_end _ _)
    · exact hz.1
  unfold parseRequestLine at h
  split at h
  · cases h
  · rename_i i hi
    obtain ⟨k, hk, rfl⟩ := Option.map_eq_some_iff.1 hi
    have hlt := strpbrk_lt hk
    dsimp only at h
    split_ifs at h
    · split at h
      · cases h
      · rename_i j hj
        obtain ⟨l, hl, rfl⟩ := Option.map_eq_some_iff.1 hj
        have hlt' := strpbrk_lt hl
        have hrest : (r.readBuffer.set (text + k) 0).cstr (text + k + 1) = (r.readBuffer.cstr text).drop (k + 1) := by
          rw [Buf.cstr_set_zero, if_neg (by omega), Nat.add_assoc, Buf.cstr_drop _ hlt]
        rw [hrest, List.length_drop] at hlt'
        have hversion := congrArg (fun x => x.2.version) h
        dsimp only at hversion
        rw [parseTarget_version] at hversion
        refine ⟨text + k + 1 + l + 1, hversion.symm, ?_⟩
        exact Buf.cstr_le_of_zero _ (by omega) hend
    · cases h

/-! ## Accepted urls -/

theorem head_cstr {n : ℕ} {b : Buf n} {i : ℕ} (h : b.get i ≠ 0) : (b.cstr i).head? = some (b.get i) := by
  have hne : b.cstr i ≠ [] := fun hn => h ((Buf.cstr_eq_nil_iff b i).1 hn)
  have hpos := List.length_pos_iff.2 hne
  rw [List.head?_eq_getElem?, List.getElem?_eq_getElem hpos, ← Buf.get_cstr b hpos, Nat.add_zero]

theorem parseTarget_url {p v : ℕ} {r r' : ReadSide} (h : parseTarget p v r = (.noRequest, r')) :
    ∃ u, r'.span r'.url = some u ∧ u.2.head? = some slash := by
  unfold parseTarget at h
  by_cases hv : strcasecmp (r.readBuffer.cstr v) (ascii "HTTP/1.1") = true
  · rw [if_pos hv] at h
    dsimp only at h
    generalize (if strncasecmp (r.readBuffer.cstr p) (ascii "http://") 7 = true then
      { r with url := r.readBuffer.strchr (p + 7) slash } else r) = s at h
    cases hu : s.url with
    | none => rw [hu] at h; cases h
    | some u =>
      rw [hu] at h
      dsimp only at h
      split_ifs at h with hs
      · cases h
        refine ⟨(u, s.readBuffer.cstr u), rfl, ?_⟩
        exact (head_cstr (by rw [hs]; decide)).trans (congrArg some hs)
      · cases h
  · rw [if_neg hv] at h
    cases h

/-- a url that `parseRequestLine` accepts begins with a slash -/
theorem parseRequestLine_url {text : ℕ} {r r' : ReadSide} (h : parseRequestLine text r = (.noRequest, r')) :
    ∃ u, r'.span r'.url = some u ∧ u.2.head? = some slash := by
  unfold parseRequestLine at h
  split at h
  · cases h
  · dsimp only at h
    split_ifs at h
    · split at h
      · cases h
      · exact parseTarget_url h
    · cases h

end WebServer.HttpConn
