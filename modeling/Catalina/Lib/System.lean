import Mathlib.Order.WellFounded
import Mathlib.Algebra.BigOperators.Group.List.Basic

/-!
# Systems that take steps

A system has states and events; an event that is not enabled has no next state.

* `exec step s es`: the state after the events `es`; `exec_append`.
* `exec_invariant`: the invariant rule; `exec_relates`: what a run keeps of the state it starts from.
* `Next step I E`: one step by an event of `E` where `I` holds. `wellFounded_of_rank`: if the steps
  lower a rank there are no endless runs; `exists_not_enabled`, **`exists_stuck`**.
* `sum_map_set`, `sum_map_eraseIdx`: what all processes have together, when one of them moves or ends.
-/

namespace Catalina

variable {σ ε : Type} (step : σ → ε → Option σ)

/-- The state after a run of events, if each of them is enabled. -/
def exec : σ → List ε → Option σ
  | s, [] => some s
  | s, e :: es => (step s e).bind fun s' => exec s' es

variable {step} {I : σ → Prop} {E : ε → Prop} {s s' s'' : σ} {e : ε} {es : List ε}

theorem exec_cons (h : exec step s (e :: es) = some s'') :
    ∃ s', step s e = some s' ∧ exec step s' es = some s'' := Option.bind_eq_some_iff.mp h

theorem exec_append : ∀ {s : σ} (es : List ε) {es' : List ε},
    exec step s (es ++ es') = (exec step s es).bind fun s' => exec step s' es'
  | _, [], _ => rfl
  | s, e :: es, es' => by
    change (step s e).bind _ = ((step s e).bind _).bind _
    rw [Option.bind_assoc]
    exact congrArg _ (funext fun s' => exec_append es)

theorem exec_trans {es' : List ε} (h : exec step s es = some s')
    (h' : exec step s' es' = some s'') : exec step s (es ++ es') = some s'' := by
  rw [exec_append, h]
  exact h'

/-- **The invariant rule**, for runs whose events are all in `E`. -/
theorem exec_invariant (hI : ∀ s e s', I s → E e → step s e = some s' → I s') :
    ∀ {s s' : σ} {es : List ε}, I s → (∀ e ∈ es, E e) → exec step s es = some s' → I s'
  | _, _, [], hs, _, h => Option.some.inj h ▸ hs
  | s, s'', e :: es, hs, hE, h => by
    obtain ⟨s', h₁, h₂⟩ := exec_cons h
    have hs' : I s' := hI s e s' hs (hE e List.mem_cons_self) h₁
    exact exec_invariant hI hs' (fun e he => hE e (List.mem_cons_of_mem _ he)) h₂

/-- **What every step keeps of its start** under an invariant, a run keeps. -/
theorem exec_relates {R : σ → σ → Prop} (hrefl : ∀ s, R s s) (htrans : ∀ a b c, R a b → R b c → R a c)
    (hI : ∀ s e s', I s → E e → step s e = some s' → I s' ∧ R s s') :
    ∀ {s s' : σ} {es : List ε}, I s → (∀ e ∈ es, E e) → exec step s es = some s' → R s s'
  | s, _, [], _, _, h => Option.some.inj h ▸ hrefl s
  | s, s'', e :: es, hs, hE, h => by
    obtain ⟨s', h₁, h₂⟩ := exec_cons h
    obtain ⟨hs', hR⟩ := hI s e s' hs (hE e List.mem_cons_self) h₁
    exact htrans s s' s'' hR
      (exec_relates hrefl htrans hI hs' (fun e he => hE e (List.mem_cons_of_mem _ he)) h₂)

/-! ## Runs that end -/

variable (step I E) in
/-- One step by an event of `E` from a state that meets `I`, read backwards. -/
def Next (s' s : σ) : Prop := I s ∧ ∃ e, E e ∧ step s e = some s'

/-- **The rank rule.** -/
theorem wellFounded_of_rank {β : Type} {lt : β → β → Prop} (hlt : WellFounded lt) (rank : σ → β)
    (h : ∀ s e s', I s → E e → step s e = some s' → lt (rank s') (rank s)) :
    WellFounded (Next step I E) :=
  Subrelation.wf (fun ⟨hs, e, he, hstep⟩ => h _ e _ hs he hstep) (InvImage.wf rank hlt)

section Ends

variable (hwf : WellFounded (Next step I E))
  (hI : ∀ s e s', I s → E e → step s e = some s' → I s')

include hwf hI

/-- **No run goes on for ever.** -/
theorem exists_not_enabled (f : ℕ → ε) (hf : ∀ n, E (f n)) (hs : I s) :
    ∃ n, exec step s ((List.range n).map f) = none := by
  induction s using hwf.induction generalizing f with
  | _ s ih =>
    cases h : step s (f 0) with
    | none => exact ⟨1, by rw [List.range_one, List.map_singleton, exec, h]; rfl⟩
    | some s' =>
      obtain ⟨n, hn⟩ := ih s' ⟨hs, f 0, hf 0, h⟩ (fun n => f (n + 1)) (fun n => hf (n + 1))
        (hI s _ s' hs (hf 0) h)
      refine ⟨n + 1, ?_⟩
      rw [List.range_succ_eq_map, List.map_cons, List.map_map, exec, h]
      exact hn

/-- **Every state has a run to one where no event of `E` is enabled.** -/
theorem exists_stuck (hs : I s) :
    ∃ es s', (∀ e ∈ es, E e) ∧ exec step s es = some s' ∧ ∀ e, E e → step s' e = none := by
  induction s using hwf.induction with
  | _ s ih =>
    by_cases hstuck : ∀ e, E e → step s e = none
    · exact ⟨[], s, fun e he => absurd he List.not_mem_nil, rfl, hstuck⟩
    · obtain ⟨e, he⟩ := not_forall.mp hstuck
      obtain ⟨hE, hne⟩ := Classical.not_imp.mp he
      obtain ⟨s', hs'⟩ := Option.ne_none_iff_exists'.mp hne
      obtain ⟨es, s'', hes, hexec, hstuck'⟩ := ih s' ⟨hs, e, hE, hs'⟩ (hI s e s' hs hE hs')
      refine ⟨e :: es, s'', ?_, ?_, hstuck'⟩
      · rintro x (_ | ⟨_, hx⟩)
        · exact hE
        · exact hes x hx
      · rw [exec, hs']
        exact hexec

end Ends

/-! ## Processes -/

section Processes

variable {α M : Type} [AddCommMonoid M] (f : α → M) {a : α}

theorem sum_map_eraseIdx : ∀ {l : List α} {n : ℕ}, l[n]? = some a →
    ((l.eraseIdx n).map f).sum + f a = (l.map f).sum
  | x :: l, 0, ha => by
    obtain rfl : x = a := Option.some.inj ha
    rw [List.eraseIdx_cons_zero, List.map_cons, List.sum_cons, add_comm]
  | x :: l, n + 1, ha => by
    have ih : ((l.eraseIdx n).map f).sum + f a = (l.map f).sum := sum_map_eraseIdx ha
    rw [List.eraseIdx_cons_succ, List.map_cons, List.sum_cons, List.map_cons, List.sum_cons,
      add_assoc, ih]

theorem sum_map_set {l : List α} {n : ℕ} (ha : l[n]? = some a) (b : α) :
    ((l.eraseIdx n).map f).sum + f b = ((l.set n b).map f).sum := by
  obtain ⟨hn, _⟩ := List.getElem?_eq_some_iff.mp ha
  have hb : (l.set n b)[n]? = some b := List.getElem?_set_self hn
  rw [← sum_map_eraseIdx f hb, List.eraseIdx_set_eq]

end Processes

end Catalina
