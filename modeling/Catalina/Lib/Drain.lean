import Mathlib.Data.List.Basic

/-!
# Runs of a machine, and workers that drain a queue

* `Along step C s ms`: every message of the run `ms` from `s` is handled in a state that meets `C`;
  `Along.invariant`, `Along.imp`.
* `drain work pop n s t`: work on the job `t`; when that finishes, pop the next job off the queue
  kept in the state and go on, at most `n` times. A job that is left early ends the worker.
* `EachCall`: a property of the state and the job at every call the worker makes;
  `EachCall.invariant`, `EachCall.imp`, `EachCall.of_finished`, and `drain_eq`: with enough fuel the
  worker is the tail-recursive one.
* `drain_relates`, `drain_map`: two workers over related states, and a worker over a state with more
  in it.
* `calls`: the calls the worker makes.
* `SinceCall`: a property of one call, and another one of every later call; `SinceCall.invariant`.
-/

namespace Catalina

section Run

variable {σ μ : Type} (step : σ → μ → σ)

/-- Every message of the run is handled in a state that meets `C`. -/
def Along (C : σ → μ → Prop) : σ → List μ → Prop
  | _, [] => True
  | s, m :: ms => C s m ∧ Along C (step s m) ms

variable {step} {C D : σ → μ → Prop} {I : σ → Prop}

/-- **The invariant rule for runs.** -/
theorem Along.invariant (hI : ∀ s m, I s → C s m → I (step s m)) :
    ∀ {s : σ} {ms : List μ}, I s → Along step C s ms → I (ms.foldl step s)
  | _, [], hs, _ => hs
  | s, m :: ms, hs, h => by
    rw [List.foldl_cons]
    exact Along.invariant hI (hI s m hs h.1) h.2

/-- **What each step gives under the invariant, the run gives at every step.** -/
theorem Along.imp (hI : ∀ s m, I s → C s m → I (step s m) ∧ D s m) :
    ∀ {s : σ} {ms : List μ}, I s → Along step C s ms → Along step D s ms
  | _, [], _, _ => trivial
  | s, m :: _, hs, h =>
    have hm := hI s m hs h.1
    ⟨hm.2, Along.imp hI hm.1 h.2⟩

theorem Along.of_initial : ∀ {s : σ} {ms ns : List μ}, Along step C s ms → ns <+: ms →
    Along step C s ns
  | _, _, [], _, _ => trivial
  | _, [], _ :: _, _, hp => absurd (List.prefix_nil.mp hp) (List.cons_ne_nil _ _)
  | _, m :: ms, n :: ns, h, hp => by
    obtain ⟨rfl, hp'⟩ := List.cons_prefix_cons.mp hp
    exact ⟨h.1, h.2.of_initial hp'⟩

theorem Along.of_mem {L : List μ} : ∀ {s : σ} {ms : List μ}, Along step C s ms → (∀ m ∈ ms, m ∈ L) →
    Along step (fun s m => C s m ∧ m ∈ L) s ms
  | _, [], _, _ => trivial
  | _, _ :: _, h, hL =>
    ⟨⟨h.1, hL _ List.mem_cons_self⟩, h.2.of_mem fun m hm => hL m (List.mem_cons_of_mem _ hm)⟩

theorem Along.of_forall (hC : ∀ s m, C s m) : ∀ (s : σ) (ms : List μ), Along step C s ms
  | _, [] => trivial
  | s, m :: ms => ⟨hC s m, Along.of_forall hC (step s m) ms⟩

end Run

section Drain

variable {σ τ : Type} (work : σ → τ → σ × Bool) (pop : σ → Option (τ × σ))

/-- Work on `t` and on the jobs waiting behind it. -/
def drain : ℕ → σ → τ → σ
  | 0, s, t => (work s t).1
  | n + 1, s, t =>
    if (work s t).2 then
      match pop (work s t).1 with
      | none => (work s t).1
      | some (t', s') => drain n s' t'
    else (work s t).1

/-- Every call the worker makes meets `C`. -/
def EachCall (C : σ → τ → Prop) : ℕ → σ → τ → Prop
  | 0, s, t => C s t
  | n + 1, s, t => C s t ∧
    ((work s t).2 = true → ∀ t' s', pop (work s t).1 = some (t', s') → EachCall C n s' t')

variable {work pop} {C D J : σ → τ → Prop} {I : σ → Prop}

theorem EachCall.head {n : ℕ} {s : σ} {t : τ} (h : EachCall work pop C n s t) : C s t := by
  cases n with
  | zero => exact h
  | succ n => exact h.1

/-- **The invariant rule for a worker.** `I` holds between jobs, `J` with a job in hand. -/
theorem EachCall.invariant (hw : ∀ s t, J s t → C s t → I (work s t).1)
    (hp : ∀ s t s', I s → pop s = some (t, s') → J s' t) :
    ∀ {n : ℕ} {s : σ} {t : τ}, J s t → EachCall work pop C n s t → I (drain work pop n s t)
  | 0, s, t, hs, h => hw s t hs h
  | n + 1, s, t, hs, h => by
    rw [drain]
    have h₁ := hw s t hs h.1
    split_ifs with hb
    · cases hpop : pop (work s t).1 with
      | none => exact h₁
      | some p => exact EachCall.invariant hw hp (hp _ _ _ h₁ hpop) (h.2 hb _ _ hpop)
    · exact h₁

/-- **What each call gives under the invariant, the worker gives at every call.** -/
theorem EachCall.imp (hw : ∀ s t, J s t → C s t → I (work s t).1 ∧ D s t)
    (hp : ∀ s t s', I s → pop s = some (t, s') → J s' t) :
    ∀ {n : ℕ} {s : σ} {t : τ}, J s t → EachCall work pop C n s t → EachCall work pop D n s t
  | 0, s, t, hs, h => (hw s t hs h).2
  | n + 1, s, t, hs, h => by
    have h₁ := hw s t hs h.1
    exact ⟨h₁.2, fun hb t' s' hpop =>
      EachCall.imp hw hp (hp _ _ _ h₁.1 hpop) (h.2 hb t' s' hpop)⟩

/-- **A property of the first call and of every call that follows a finished one.** -/
theorem EachCall.of_finished (hnext : ∀ s t t' s', (work s t).2 = true →
    pop (work s t).1 = some (t', s') → C s' t') :
    ∀ {n : ℕ} {s : σ} {t : τ}, C s t → EachCall work pop C n s t
  | 0, _, _, hs => hs
  | _ + 1, s, t, hs => ⟨hs, fun hb t' s' hpop => EachCall.of_finished hnext (hnext s t t' s' hb hpop)⟩

theorem EachCall.of_forall (hC : ∀ s t, C s t) :
    ∀ (n : ℕ) (s : σ) (t : τ), EachCall work pop C n s t
  | 0, s, t => hC s t
  | n + 1, s, t => ⟨hC s t, fun _ t' s' _ => EachCall.of_forall hC n s' t'⟩

/-- **The relational rule for workers.** If each call and each pop keeps two states related, and the
two workers stop together, they leave related states. -/
theorem drain_relates {ρ : Type} {work' : ρ → τ → ρ × Bool} {pop' : ρ → Option (τ × ρ)}
    {R : σ → ρ → Prop}
    (hw : ∀ s s' t, R s s' → R (work s t).1 (work' s' t).1 ∧ (work s t).2 = (work' s' t).2)
    (hp : ∀ s s', R s s' → Option.Rel (fun p q => p.1 = q.1 ∧ R p.2 q.2) (pop s) (pop' s')) :
    ∀ (n : ℕ) {s : σ} {s' : ρ} {t : τ}, R s s' →
      R (drain work pop n s t) (drain work' pop' n s' t)
  | 0, s, s', t, h => (hw s s' t h).1
  | n + 1, s, s', t, h => by
    obtain ⟨h₁, hb⟩ := hw s s' t h
    have hpop := hp _ _ h₁
    rw [drain, drain, hb]
    split_ifs
    · generalize pop (work s t).1 = p at hpop ⊢
      generalize pop' (work' s' t).1 = q at hpop ⊢
      cases hpop with
      | none => exact h₁
      | @some p q hpq =>
        obtain ⟨t₁, s₁⟩ := p
        obtain ⟨t₂, s₂⟩ := q
        obtain ⟨rfl, hs⟩ := hpq
        exact drain_relates hw hp n hs
    · exact h₁

/-- **A worker over a state with more in it** does to the state what the plain worker does. -/
theorem drain_map {ρ : Type} {work' : ρ → τ → ρ × Bool} {pop' : ρ → Option (τ × ρ)} (f : σ → ρ)
    (hw : ∀ s t, work' (f s) t = (f (work s t).1, (work s t).2))
    (hp : ∀ s, pop' (f s) = (pop s).map fun p => (p.1, f p.2)) (n : ℕ) (s : σ) (t : τ) :
    f (drain work pop n s t) = drain work' pop' n (f s) t := by
  refine drain_relates (R := fun s s' => f s = s') ?_ ?_ n rfl
  · rintro s _ t rfl
    rw [hw]
    exact ⟨rfl, rfl⟩
  · rintro s _ rfl
    rw [hp]
    cases pop s with
    | none => exact Option.Rel.none
    | some p => exact Option.Rel.some ⟨rfl, rfl⟩

variable (work pop) in
/-- The calls the worker makes, in order. -/
def calls : ℕ → σ → τ → List (σ × τ)
  | 0, s, t => [(s, t)]
  | n + 1, s, t => (s, t) :: if (work s t).2 then
      match pop (work s t).1 with
      | none => []
      | some (t', s') => calls n s' t'
    else []

variable (work pop C D) in
/-- Some call the worker makes meets `C`, and every call after it meets `D`. -/
def SinceCall : ℕ → σ → τ → Prop
  | 0, s, t => C s t
  | n + 1, s, t =>
    (C s t ∧ ((work s t).2 = true →
      ∀ t' s', pop (work s t).1 = some (t', s') → EachCall work pop D n s' t')) ∨
    ((work s t).2 = true ∧ ∃ t' s', pop (work s t).1 = some (t', s') ∧ SinceCall n s' t')

/-- **What the one call establishes and the later calls keep** holds when the worker ends. -/
theorem SinceCall.invariant (hC : ∀ s t, C s t → I (work s t).1)
    (hD : ∀ s t, I s → D s t → I (work s t).1)
    (hp : ∀ s t s', I s → pop s = some (t, s') → I s') :
    ∀ {n : ℕ} {s : σ} {t : τ}, SinceCall work pop C D n s t → I (drain work pop n s t)
  | 0, s, t, h => hC s t h
  | n + 1, s, t, h => by
    rw [drain]
    rcases h with ⟨hs, hlater⟩ | ⟨hb, t', s', hpop, hs⟩
    · have h₁ := hC s t hs
      split_ifs with hb
      · cases hpop : pop (work s t).1 with
        | none => exact h₁
        | some p => exact EachCall.invariant hD hp (hp _ _ _ h₁ hpop) (hlater hb _ _ hpop)
      · exact h₁
    · rw [if_pos hb, hpop]
      exact SinceCall.invariant hC hD hp hs

theorem drain_fuel {size : σ → ℕ} (hpop : ∀ s t s', pop s = some (t, s') → size s' + 1 = size s)
    (hwork : ∀ s t, (work s t).2 = true → size (work s t).1 = size s) (n m : ℕ) {s : σ} {t : τ}
    (hn : size s ≤ n) (hm : size s ≤ m) : drain work pop n s t = drain work pop m s t := by
  induction n generalizing m s t with
  | zero =>
    cases m with
    | zero => rfl
    | succ m =>
      rw [drain, drain]
      split_ifs with hb
      · cases h : pop (work s t).1 with
        | none => rfl
        | some p =>
          have h₁ := hpop _ _ _ h
          rw [hwork s t hb] at h₁
          omega
      · rfl
  | succ n ih =>
    cases m with
    | zero =>
      rw [drain, drain]
      split_ifs with hb
      · cases h : pop (work s t).1 with
        | none => rfl
        | some p =>
          have h₁ := hpop _ _ _ h
          rw [hwork s t hb] at h₁
          omega
      · rfl
    | succ m =>
      rw [drain, drain]
      split_ifs with hb
      · cases h : pop (work s t).1 with
        | none => rfl
        | some p =>
          have h₁ := hpop _ _ _ h
          rw [hwork s t hb] at h₁
          exact ih m (by omega) (by omega)
      · rfl

/-- **The worker's own recursion**, once the fuel is the length of the queue. -/
theorem drain_eq {size : σ → ℕ} (hpop : ∀ s t s', pop s = some (t, s') → size s' + 1 = size s)
    (hwork : ∀ s t, (work s t).2 = true → size (work s t).1 = size s) (s : σ) (t : τ) :
    drain work pop (size s) s t =
      if (work s t).2 then
        match pop (work s t).1 with
        | none => (work s t).1
        | some (t', s') => drain work pop (size s') s' t'
      else (work s t).1 := by
  rw [drain_fuel hpop hwork (size s) (size s + 1) (Nat.le_refl _) (Nat.le_succ _), drain]
  split_ifs with hb
  · cases h : pop (work s t).1 with
    | none => rfl
    | some p =>
      have h₁ := hpop _ _ _ h
      rw [hwork s t hb] at h₁
      exact drain_fuel hpop hwork (size s) (size p.2) (by omega) (Nat.le_refl _)
  · rfl

end Drain

end Catalina
