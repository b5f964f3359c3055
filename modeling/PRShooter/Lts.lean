import Mathlib.Logic.Relation
import Mathlib.Data.List.Basic
import Mathlib.Data.List.Induction

/-!
# Partial step functions and their runs

A system is a function `step : σ → ι → Option σ`: the label `ι` names the action and every choice
of the environment, and `none` says that the action cannot be taken there. `run` executes a list
of labels, `Reach` is reachability by steps that meet a condition `ok` on the state before the
step, and the two invariant rules say what a run keeps when every step keeps it.
-/

namespace Lts

variable {σ ι : Type*} (step : σ → ι → Option σ)

/-- The state after a list of labels, if each of them can be taken. -/
def run : List ι → σ → Option σ
  | [], s => some s
  | i :: is, s => (step s i).bind (run is)

@[simp] theorem run_nil (s : σ) : run step [] s = some s := rfl

@[simp] theorem run_cons (i : ι) (is : List ι) (s : σ) :
    run step (i :: is) s = (step s i).bind (run step is) := rfl

/-- `t` is reached from `s` by steps each of which meets `ok` in the state it starts from. -/
def Reach (ok : σ → ι → Prop) (s t : σ) : Prop :=
  Relation.ReflTransGen (fun u v => ∃ i, ok u i ∧ step u i = some v) s t

/-- The condition every step meets. -/
def Any (_ : σ) (_ : ι) : Prop := True

variable {step} {ok : σ → ι → Prop} {s t u : σ} {i : ι}

theorem Reach.refl : Reach step ok s s := Relation.ReflTransGen.refl

theorem Reach.tail (h : Reach step ok s t) (hi : ok t i) (ht : step t i = some u) :
    Reach step ok s u :=
  Relation.ReflTransGen.tail h ⟨i, hi, ht⟩

theorem Reach.trans (h : Reach step ok s t) (h' : Reach step ok t u) : Reach step ok s u :=
  Relation.ReflTransGen.trans h h'

/-- **Invariant rule.** What the steps that meet `ok` preserve holds in every state they reach. -/
theorem Reach.invariant {I : σ → Prop} (h : Reach step ok s t) (h0 : I s)
    (hstep : ∀ u i v, I u → ok u i → step u i = some v → I v) : I t := by
  induction h with
  | refl => exact h0
  | tail _ hlast ih =>
    obtain ⟨i, hi, hv⟩ := hlast
    exact hstep _ i _ ih hi hv

/-- A run is a sequence of steps. -/
theorem Reach.of_run {is : List ι} (h : run step is s = some t) : Reach step Any s t := by
  induction is generalizing s with
  | nil =>
    obtain rfl : s = t := by simpa using h
    exact Reach.refl
  | cons i is ih =>
    obtain ⟨u, hu, hrest⟩ := Option.bind_eq_some_iff.mp h
    exact Relation.ReflTransGen.head ⟨i, trivial, hu⟩ (ih hrest)

theorem run_append (is js : List ι) (s : σ) :
    run step (is ++ js) s = (run step is s).bind (run step js) := by
  induction is generalizing s with
  | nil => rfl
  | cons i is ih =>
    simp only [List.cons_append, run_cons, Option.bind_assoc]
    exact congrArg _ (funext ih)

/-- Invariant rule for a run whose labels come from a given list. -/
theorem run_invariant {I : σ → Prop} {is : List ι} (h : run step is s = some t) (h0 : I s)
    (hstep : ∀ u, ∀ i ∈ is, ∀ v, I u → step u i = some v → I v) : I t := by
  induction is generalizing s with
  | nil =>
    obtain rfl : s = t := by simpa using h
    exact h0
  | cons i is ih =>
    obtain ⟨u, hu, hrest⟩ := Option.bind_eq_some_iff.mp h
    exact ih hrest (hstep s i (by simp) u h0 hu)
      fun u j hj v hI hv => hstep u j (by simp [hj]) v hI hv

/-- **History rule.** What is kept of the labels taken so far and the state they led to. -/
theorem run_history {I : List ι → σ → Prop} {is : List ι} (h : run step is s = some t) (h0 : I [] s)
    (hstep : ∀ js u i v, I js u → step u i = some v → I (js ++ [i]) v) : I is t := by
  induction is using List.reverseRecOn generalizing t with
  | nil =>
    obtain rfl : s = t := by simpa using h
    exact h0
  | append_singleton is i ih =>
    rw [run_append] at h
    obtain ⟨u, hu, hlast⟩ := Option.bind_eq_some_iff.mp h
    obtain ⟨v, hv, heq⟩ := Option.bind_eq_some_iff.mp hlast
    obtain rfl : v = t := by simpa using heq
    exact hstep is u i v (ih hu) hv

/-- A run never gets stuck if no step does. -/
theorem run_isSome (h : ∀ u i, (step u i).isSome) (is : List ι) (s : σ) :
    (run step is s).isSome := by
  induction is generalizing s with
  | nil => rfl
  | cons i is ih =>
    obtain ⟨u, hu⟩ := Option.isSome_iff_exists.mp (h s i)
    rw [run_cons, hu, Option.bind_some]
    exact ih u

/-- If every step commutes with a change of the states, so does every run. -/
theorem run_map {I : σ → Prop} {f : σ → σ} {step' : σ → ι → Option σ} {is : List ι} (h0 : I s)
    (hI : ∀ u i v, I u → step u i = some v → I v)
    (hstep : ∀ u i, I u → step' (f u) i = (step u i).map f) :
    run step' is (f s) = (run step is s).map f := by
  induction is generalizing s with
  | nil => rfl
  | cons i is ih =>
    rw [run_cons, run_cons, hstep s i h0]
    cases hi : step s i with
    | none => rfl
    | some t => exact ih (hI s i t h0 hi)

/-! ## Conditions along a run -/

variable (step) in
/-- Every state of the run satisfies `P`. -/
def Always (P : σ → Prop) : List ι → σ → Prop
  | [], s => P s
  | i :: is, s => P s ∧ ∀ t, step s i = some t → Always P is t

variable (step) in
/-- Every step of the run meets `ok`. -/
def Along (ok : σ → ι → Prop) : List ι → σ → Prop
  | [], _ => True
  | i :: is, s => ok s i ∧ ∀ t, step s i = some t → Along ok is t

instance Along.decidable [∀ u i, Decidable (ok u i)] :
    ∀ (is : List ι) (s : σ), Decidable (Along step ok is s)
  | [], _ => .isTrue trivial
  | i :: is, s =>
    match h : step s i with
    | none => decidable_of_iff (ok s i) ⟨fun hi => ⟨hi, by simp [h]⟩, And.left⟩
    | some t =>
      have := Along.decidable is t
      decidable_of_iff (ok s i ∧ Along step ok is t) (by simp [Along, h])

/-- The first step of a run that meets `ok` throughout. -/
theorem Along.cons {is : List ι} (h : step s i = some t) (hi : ok s i)
    (his : Along step ok is t) : Along step ok (i :: is) s := by
  refine ⟨hi, fun u hu => ?_⟩
  obtain rfl : t = u := Option.some.inj (h.symm.trans hu)
  exact his

/-- The two parts of a run that meets `ok` throughout. -/
theorem Along.of_append {is js : List ι} (h : Along step ok (is ++ js) s)
    (hrun : run step is s = some t) : Along step ok is s ∧ Along step ok js t := by
  induction is generalizing s with
  | nil =>
    obtain rfl : s = t := by simpa using hrun
    exact ⟨trivial, h⟩
  | cons i is ih =>
    obtain ⟨u, hu, hrest⟩ := Option.bind_eq_some_iff.mp hrun
    obtain ⟨his, hjs⟩ := ih (h.2 u hu) hrest
    exact ⟨Along.cons hu h.1 his, hjs⟩

/-- Two runs, one after the other. -/
theorem Along.append {is js : List ι} (his : Along step ok is s) (hrun : run step is s = some t)
    (hjs : Along step ok js t) : Along step ok (is ++ js) s := by
  induction is generalizing s with
  | nil =>
    obtain rfl : s = t := by simpa using hrun
    exact hjs
  | cons i is ih =>
    obtain ⟨u, hu, hrest⟩ := Option.bind_eq_some_iff.mp hrun
    exact .cons hu his.1 (ih (his.2 u hu) hrest)

/-- A condition holds along a run if each label meets it in the state its predecessors lead to. -/
theorem along_iff_forall {is : List ι} : Along step ok is s ↔
    ∀ pre i post u, is = pre ++ i :: post → run step pre s = some u → ok u i := by
  induction is generalizing s with
  | nil =>
    refine ⟨fun _ pre i post u hpre => ?_, fun _ => trivial⟩
    simp at hpre
  | cons j is ih =>
    constructor
    · rintro ⟨hj, hrun⟩ pre i post u hpre hu
      cases pre with
      | nil =>
        obtain ⟨rfl, -⟩ := List.cons.inj hpre
        exact Option.some.inj hu ▸ hj
      | cons k pre =>
        obtain ⟨rfl, htail⟩ := List.cons.inj hpre
        obtain ⟨v, hv, hrest⟩ := Option.bind_eq_some_iff.mp hu
        exact ih.mp (hrun v hv) pre i post u htail hrest
    · intro h
      refine ⟨h [] j is s rfl rfl, fun v hv => ih.mpr fun pre i post u hpre hu => ?_⟩
      refine h (j :: pre) i post u (by rw [hpre]; rfl) ?_
      rw [run_cons, hv]
      exact hu

/-- A condition that implies another one where an invariant holds implies it along every run. -/
theorem Along.mono {ok' : σ → ι → Prop} {I : σ → Prop} {is : List ι} (h0 : I s)
    (hstep : ∀ u i v, I u → step u i = some v → I v)
    (himp : ∀ u, ∀ i ∈ is, I u → ok u i → ok' u i) (h : Along step ok is s) :
    Along step ok' is s := by
  induction is generalizing s with
  | nil => trivial
  | cons i is ih =>
    refine ⟨himp s i (by simp) h0 h.1, fun t ht => ?_⟩
    exact ih (hstep s i t h0 ht) (fun u j hj => himp u j (by simp [hj])) (h.2 t ht)

/-- Every step of a fold meets `ok`. -/
def AlongFold (f : σ → ι → σ) (ok : σ → ι → Prop) : List ι → σ → Prop :=
  Along (fun s i => some (f s i)) ok

theorem alongFold_cons (f : σ → ι → σ) (is : List ι) :
    AlongFold f ok (i :: is) s ↔ ok s i ∧ AlongFold f ok is (f s i) := by
  simp [AlongFold, Along]

/-- A run that meets `ok` throughout reaches its last state. -/
theorem Reach.of_along {is : List ι} (h : run step is s = some t) (halong : Along step ok is s) :
    Reach step ok s t := by
  induction is generalizing s with
  | nil =>
    obtain rfl : s = t := by simpa using h
    exact Reach.refl
  | cons i is ih =>
    obtain ⟨u, hu, hrest⟩ := Option.bind_eq_some_iff.mp h
    exact Relation.ReflTransGen.head ⟨i, halong.1, hu⟩ (ih hrest (halong.2 u hu))

/-- If a step keeps `P` exactly when it meets `ok`, then a run stays in `P` exactly when all its
steps meet `ok`. -/
theorem always_iff_along {P : σ → Prop}
    (hstep : ∀ u i v, P u → step u i = some v → (ok u i ↔ P v)) {is : List ι}
    (h : run step is s = some t) (h0 : P s) : Always step P is s ↔ Along step ok is s := by
  induction is generalizing s with
  | nil => simpa [Always, Along] using h0
  | cons i is ih =>
    obtain ⟨u, hu, hrest⟩ := Option.bind_eq_some_iff.mp h
    have hok := hstep s i u h0 hu
    constructor
    · rintro ⟨-, hrun⟩
      have hP : P u := by
        cases is with
        | nil => exact hrun u hu
        | cons j js => exact (hrun u hu).1
      refine ⟨hok.mpr hP, fun v hv => ?_⟩
      obtain rfl : u = v := Option.some.inj (hu.symm.trans hv)
      exact (ih hrest hP).mp (hrun u hu)
    · rintro ⟨hi, hrun⟩
      refine ⟨h0, fun v hv => ?_⟩
      obtain rfl : u = v := Option.some.inj (hu.symm.trans hv)
      exact (ih hrest (hok.mp hi)).mpr (hrun u hu)

theorem Always.head {P : σ → Prop} {is : List ι} (h : Always step P is s) : P s := by
  cases is with
  | nil => exact h
  | cons i is => exact h.1

/-- If the steps that meet `ok` preserve `I`, which contains `P`, and from `I` only they lead to `P`,
then a run stays in `P` exactly when all its steps meet `ok`. -/
theorem always_iff_along_of_invariant {I P : σ → Prop} (hI : ∀ u, I u → P u)
    (hstep : ∀ u i v, I u → ok u i → step u i = some v → I v)
    (hok : ∀ u i v, I u → step u i = some v → P v → ok u i) {is : List ι}
    (h : run step is s = some t) (h0 : I s) : Always step P is s ↔ Along step ok is s := by
  induction is generalizing s with
  | nil => exact ⟨fun _ => trivial, fun _ => hI s h0⟩
  | cons i is ih =>
    obtain ⟨u, hu, hrest⟩ := Option.bind_eq_some_iff.mp h
    constructor
    · rintro ⟨-, hrun⟩
      have hi := hok s i u h0 hu (hrun u hu).head
      exact Along.cons hu hi ((ih hrest (hstep s i u h0 hi hu)).mp (hrun u hu))
    · rintro ⟨hi, hrun⟩
      refine ⟨hI s h0, fun v hv => ?_⟩
      obtain rfl : u = v := Option.some.inj (hu.symm.trans hv)
      exact (ih hrest (hstep s i u h0 hi hu)).mpr (hrun u hu)

/-- Two step functions that agree where `ok` holds have the same runs along `ok`. -/
theorem run_eq_of_along {step' : σ → ι → Option σ} (heq : ∀ u i, ok u i → step' u i = step u i)
    {is : List ι} (h : Along step ok is s) : run step' is s = run step is s := by
  induction is generalizing s with
  | nil => rfl
  | cons i is ih =>
    rw [run_cons, run_cons, heq s i h.1]
    cases hu : step s i with
    | none => rfl
    | some u => exact ih (h.2 u hu)

/-- **Two runs.** A relation that steps with the same label keep is kept by runs. -/
theorem run_rel {R : σ → σ → Prop} {is : List ι}
    (hstep : ∀ u v, ∀ i ∈ is, R u v → Option.Rel R (step u i) (step v i)) (h : R s t) :
    Option.Rel R (run step is s) (run step is t) := by
  induction is generalizing s t with
  | nil => exact .some h
  | cons i is ih =>
    rw [run_cons, run_cons]
    have hfirst := hstep s t i (by simp) h
    generalize step s i = a at hfirst ⊢
    generalize step t i = b at hfirst ⊢
    cases hfirst with
    | none => exact .none
    | some hrel => exact ih (fun u v j hj => hstep u v j (by simp [hj])) hrel

/-- **Two runs, one actor.** `own` are the labels of one actor, as far as they matter to it, and
`view` is what it sees. If the steps of the others leave the view alone, and a step of its own
changes the view in a way that depends on the view alone, then two runs in which the actor does the
same lead from one view to one view, whatever the others do. -/
theorem run_view {ω l : Type*} {P : ι → Prop} {own : ι → Option l} {view : σ → ω}
    {is js : List ι} {s' t' : σ}
    (hframe : ∀ u i v, P i → own i = none → step u i = some v → view v = view u)
    (hlocal : ∀ u u' i j v v', P i → P j → (own i).isSome → own i = own j → view u = view u' →
      step u i = some v → step u' j = some v' → view v = view v')
    (hP : ∀ i ∈ is, P i) (hP' : ∀ j ∈ js, P j) (hown : is.filterMap own = js.filterMap own)
    (hview : view s = view s') (h : run step is s = some t) (h' : run step js s' = some t') :
    view t = view t' := by
  -- a run without a step of the actor
  have hquiet : ∀ (ks : List ι) (u v : σ), (∀ k ∈ ks, P k) → (∀ k ∈ ks, own k = none) →
      run step ks u = some v → view v = view u := by
    intro ks u v hks hnone hrun
    exact run_invariant (I := fun w => view w = view u) hrun rfl fun w k hk x hw hx =>
      (hframe w k x (hks k hk) (hnone k hk) hx).trans hw
  induction is generalizing js s s' with
  | nil =>
    obtain rfl : s = t := by simpa using h
    rw [hview, hquiet js s' t' hP' (List.filterMap_eq_nil_iff.mp hown.symm) h']
  | cons i is ih =>
    obtain ⟨u, hu, hrest⟩ := Option.bind_eq_some_iff.mp h
    cases hi : own i with
    | none =>
      rw [List.filterMap_cons_none hi] at hown
      exact ih (fun k hk => hP k (by simp [hk])) hP' hown
        ((hframe s i u (hP i (by simp)) hi hu).trans hview) hrest h'
    | some a =>
      rw [List.filterMap_cons_some hi] at hown
      -- the first step of the actor in the other run
      obtain ⟨pre, j, post, rfl, hpre, hj, hpost⟩ := List.filterMap_eq_cons_iff.mp hown.symm
      rw [run_append] at h'
      obtain ⟨w, hw, hrest'⟩ := Option.bind_eq_some_iff.mp h'
      obtain ⟨u', hu', hrest'⟩ := Option.bind_eq_some_iff.mp hrest'
      have hsame : view s = view w :=
        hview.trans (hquiet pre s' w (fun k hk => hP' k (by simp [hk])) hpre hw).symm
      exact ih (fun k hk => hP k (by simp [hk])) (fun k hk => hP' k (by simp [hk])) hpost.symm
        (hlocal s w i j u u' (hP i (by simp)) (hP' j (by simp)) (by simp [hi]) (hi.trans hj.symm)
          hsame hu hu') hrest hrest'

/-- **Simulation rule.** If each step from related states is matched by a run of another system,
every reachable state is related to the end of a run of that system. -/
theorem Reach.simulation {τ κ : Type*} {step' : τ → κ → Option τ} {R : σ → τ → Prop} {a : τ}
    (h : Reach step ok s t) (h0 : R s a)
    (hstep : ∀ u i v b, R u b → ok u i → step u i = some v →
      ∃ ks c, run step' ks b = some c ∧ R v c) :
    ∃ ks b, run step' ks a = some b ∧ R t b := by
  induction h with
  | refl => exact ⟨[], a, rfl, h0⟩
  | tail _ hlast ih =>
    obtain ⟨i, hi, hv⟩ := hlast
    obtain ⟨ks, b, hrun, hrel⟩ := ih
    obtain ⟨ks', c, hrun', hrel'⟩ := hstep _ i _ b hrel hi hv
    refine ⟨ks ++ ks', c, ?_, hrel'⟩
    rw [run_append, hrun, Option.bind_some, hrun']

/-! ## Progress -/

/-- **Variant rule.** `mine` are the labels of one thread, `rank` is lowered by each of its steps and
raised by no other, as long as `P` holds. Then the thread makes at most `rank` steps in a run that
ends in `P`, if `P` can only be lost on the way. -/
theorem countP_add_rank_le {I P : σ → Prop} {is : List ι} (mine : ι → Bool) (rank : σ → ℕ)
    (hI : ∀ u, ∀ i ∈ is, ∀ v, I u → step u i = some v → I v)
    (hP : ∀ u i v, step u i = some v → P v → P u)
    (hrank : ∀ u, ∀ i ∈ is, ∀ v, I u → P v → step u i = some v →
      rank v + (if mine i then 1 else 0) ≤ rank u)
    (h : run step is s = some t) (hs : I s) (ht : P t) : is.countP mine + rank t ≤ rank s := by
  have hback : ∀ (js : List ι) (u : σ), run step js u = some t → P u := by
    intro js
    induction js with
    | nil =>
      intro u hu
      exact Option.some.inj hu ▸ ht
    | cons j js ih =>
      intro u hu
      obtain ⟨v, hv, hrest⟩ := Option.bind_eq_some_iff.mp hu
      exact hP u j v hv (ih v hrest)
  induction is generalizing s with
  | nil =>
    obtain rfl : s = t := by simpa using h
    simp
  | cons i is ih =>
    obtain ⟨u, hu, hrest⟩ := Option.bind_eq_some_iff.mp h
    have hfirst := hrank s i (by simp) u hs (hback is u hrest) hu
    have htail := ih (fun u j hj => hI u j (by simp [hj])) (fun u j hj => hrank u j (by simp [hj]))
      hrest (hI s i (by simp) u hs hu)
    rw [List.countP_cons]
    omega

/-- A step function that never fails runs like a fold. -/
theorem run_some (f : σ → ι → σ) (is : List ι) (s : σ) :
    run (fun u i => some (f u i)) is s = some (is.foldl f s) := by
  induction is generalizing s with
  | nil => rfl
  | cons i is ih => exact ih (f s i)

end Lts
