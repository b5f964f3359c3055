import PRShooter.Lts
import Mathlib.Data.Set.Finite.Lemmas

/-!
# Threads that take mutexes in an order

A small structured language for what threads do with mutexes: they take them, give them back, wait
on a condition variable and create other threads. Every condition of a program is left open: a
branch may go either way. Mutexes have ranks, and `Command.check` goes through a program once: a
mutex is taken only above all that are held (a recursive one also while it is held), a loop comes
back with the mutexes it started with, a wait holds its mutex once.

If the programs of all threads pass, no reachable state has a set of threads that wait for each
other (`Safe.not_deadlocked`), whatever the schedule and however many threads there are.
-/

namespace LockOrder

/-! ## Programs -/

/-- What a thread does. `asleep` is the command of a thread in a timed wait, not one of a program. -/
inductive Command (M K : Type) where
  | skip
  | lock (m : M)
  | unlock (m : M)
  /-- Give the mutex back once, sleep until a signal, the deadline or for no reason, take it. -/
  | timedWait (m : M)
  | asleep (m : M)
  | create (kind : K)
  /-- The process ends. -/
  | exit
  | seq (first next : Command M K)
  | choice (left right : Command M K)
  /-- `for(;;)`. -/
  | loop (body : Command M K)
  | brk
  /-- Return from the function, or end the thread. -/
  | ret (ok : Bool)
  /-- The body of a function, and what follows when it returns `true` or `false`. -/
  | call (body onTrue onFalse : Command M K)

namespace Command

variable {M K : Type}

/-- `if(..) { command }`. -/
def perhaps (command : Command M K) : Command M K := .choice command .skip

/-- `while(condition) { body }`, where evaluating the condition may take mutexes too. -/
def whileDo (condition body : Command M K) : Command M K :=
  .loop (.seq condition (.seq (perhaps .brk) body))

/-- A function without a result. -/
def function (body : Command M K) : Command M K := .call body .skip .skip

/-- One command after another. -/
def block : List (Command M K) → Command M K
  | [] => .skip
  | [command] => command
  | command :: commands => .seq command (block commands)

end Command

/-! ## Threads -/

/-- What is left to do when the command is done. -/
inductive Frame (M K : Type) where
  | seq (next : Command M K)
  | loop (body : Command M K)
  | call (onTrue onFalse : Command M K)

/-- A thread: its command, what follows, and the mutexes it holds, each as often as it has taken it. -/
structure Thread (M K : Type) where
  command : Command M K
  stack : List (Frame M K)
  held : List M

namespace Thread

variable {M K : Type}

def start (program : Command M K) : Thread M K := ⟨program, [], []⟩

/-- The thread has returned. -/
def Ended (t : Thread M K) : Prop :=
  t.stack = [] ∧ (t.command = .skip ∨ ∃ ok, t.command = .ret ok)

variable [DecidableEq M]

/-- A step that needs no mutex and creates no thread; `branch` is the way it goes. -/
def step (t : Thread M K) (branch : Bool) : Option (Thread M K) :=
  match t.command, t.stack with
  | .skip, .seq next :: stack => some { t with command := next, stack }
  | .skip, .loop body :: stack => some { t with command := .loop body, stack }
  | .skip, .call onTrue _ :: stack => some { t with command := onTrue, stack }
  | .skip, [] => none
  | .unlock m, _ =>
    if m ∈ t.held then some { t with command := .skip, held := t.held.erase m } else none
  | .timedWait m, _ =>
    if m ∈ t.held then some { t with command := .asleep m, held := t.held.erase m } else none
  | .asleep m, _ => some { t with command := .lock m }
  | .seq first next, stack => some { t with command := first, stack := .seq next :: stack }
  | .choice left right, _ => some { t with command := if branch then left else right }
  | .loop body, stack => some { t with command := body, stack := .loop body :: stack }
  | .brk, .seq _ :: stack => some { t with stack }
  | .brk, .loop _ :: stack => some { t with command := .skip, stack }
  | .brk, _ => none
  | .ret _, .seq _ :: stack | .ret _, .loop _ :: stack => some { t with stack }
  | .ret ok, .call onTrue onFalse :: stack =>
    some { t with command := if ok then onTrue else onFalse, stack }
  | .ret _, [] => none
  | .call body onTrue onFalse, stack =>
    some { t with command := body, stack := .call onTrue onFalse :: stack }
  | .lock _, _ | .create _, _ | .exit, _ => none

end Thread

/-! ## The system -/

/-- The threads, in the order they were created. A thread that has ended or called `exit` stays. -/
abbrev System (M K : Type) := List (Thread M K)

/-- The rank of every mutex, and whether it is recursive. -/
structure Order (M : Type) where
  rank : M → ℕ
  recursive : M → Bool

variable {M K : Type} [DecidableEq M]

/-- No other thread holds the mutex. -/
def Free (s : System M K) (i : ℕ) (m : M) : Prop := ∀ t ∈ s.eraseIdx i, m ∉ t.held

instance (s : System M K) (i : ℕ) (m : M) : Decidable (Free s i m) :=
  inferInstanceAs (Decidable (∀ t ∈ s.eraseIdx i, m ∉ t.held))

variable (order : Order M) (program : K → Command M K)

/-- The thread can take the mutex. -/
def Available (s : System M K) (i : ℕ) (t : Thread M K) (m : M) : Prop :=
  Free s i m ∧ (m ∈ t.held → order.recursive m = true)

instance (s : System M K) (i : ℕ) (t : Thread M K) (m : M) : Decidable (Available order s i t m) :=
  inferInstanceAs (Decidable (_ ∧ _))

/-- One step of the thread with the index `label.1`. -/
def step (s : System M K) (label : ℕ × Bool) : Option (System M K) :=
  s[label.1]?.bind fun t =>
    match t.command with
    | .lock m =>
      if Available order s label.1 t m then
        some (s.set label.1 { t with command := .skip, held := m :: t.held })
      else none
    | .create kind =>
      some (s.set label.1 { t with command := .skip } ++ [Thread.start (program kind)])
    | _ => (t.step label.2).map (s.set label.1)

/-! ## What is to hold -/

/-- The thread is about to take a mutex that it cannot take. -/
def Waits (s : System M K) (i : ℕ) (m : M) : Prop :=
  ∃ t, s[i]? = some t ∧ t.command = .lock m ∧ ¬ Available order s i t m

/-- The threads of the set wait, each for a mutex that one of them holds. -/
def Deadlocked (s : System M K) (S : Set ℕ) : Prop :=
  S.Nonempty ∧ ∀ i ∈ S, ∃ m, Waits order s i m ∧ ∃ j ∈ S, ∃ t, s[j]? = some t ∧ m ∈ t.held

/-- No threads wait for each other, every wait starts with its mutex taken once, and a thread that
has ended holds nothing. -/
structure Safe (s : System M K) : Prop where
  not_deadlocked : ∀ S, ¬ Deadlocked order s S
  once : ∀ t ∈ s, ∀ m, t.command = .timedWait m → t.held.count m = 1
  ended : ∀ t ∈ s, t.Ended → t.held = []

/-! ## The check -/

/-- Which mutexes may be held at the end of a command, at a `brk` and at a `ret`. -/
structure Post (M : Type) where
  normal : List M → Bool
  brk : List M → Bool
  ret : Bool → List M → Bool

/-- The mutex is above all that are held, or is taken again. -/
def Order.allows (held : List M) (m : M) : Bool :=
  if m ∈ held then order.recursive m else held.all fun m' => order.rank m' < order.rank m

/-- The command, begun with these mutexes, keeps to the order and ends as `post` says. -/
def Command.check : Command M K → Post M → List M → Bool
  | .skip, post, held => post.normal held
  | .lock m, post, held => order.allows held m && post.normal (m :: held)
  | .unlock m, post, held => decide (m ∈ held) && post.normal (held.erase m)
  | .timedWait m, post, held =>
    decide (held.count m = 1) && order.allows (held.erase m) m && post.normal (m :: held.erase m)
  | .asleep m, post, held => order.allows held m && post.normal (m :: held)
  | .create _, post, held => post.normal held
  | .exit, _, _ => true
  | .seq first next, post, held =>
    first.check { post with normal := next.check post } held
  | .choice left right, post, held => left.check post held && right.check post held
  | .loop body, post, held =>
    body.check { post with normal := fun held' => decide (held' = held), brk := post.normal } held
  | .brk, post, held => post.brk held
  | .ret ok, post, held => post.ret ok held
  | .call body onTrue onFalse, post, held =>
    body.check
      { normal := onTrue.check post
        brk := fun _ => false
        ret := fun ok => if ok then onTrue.check post else onFalse.check post } held

/-- A thread ends without mutexes. -/
def Post.done : Post M := ⟨List.isEmpty, fun _ => false, fun _ => List.isEmpty⟩

/-- The program of a thread keeps to the order. -/
def Command.Ordered (command : Command M K) : Prop := command.check order .done [] = true

instance (command : Command M K) : Decidable (command.Ordered order) :=
  inferInstanceAs (Decidable (_ = true))

variable {order} {program}

/-! ## One thread -/

/-- Less is asked of the end. -/
structure Post.Le (post post' : Post M) : Prop where
  normal : ∀ held, post.normal held = true → post'.normal held = true
  brk : ∀ held, post.brk held = true → post'.brk held = true
  ret : ∀ ok held, post.ret ok held = true → post'.ret ok held = true

theorem Command.check_mono {command : Command M K} : ∀ {post post' : Post M} {held : List M},
    post.Le post' → command.check order post held = true →
      command.check order post' held = true := by
  induction command with
  | skip | create kind => exact fun hle h => hle.normal _ h
  | lock m | asleep m =>
    intro post post' held hle h
    obtain ⟨hallows, hnormal⟩ := Bool.and_eq_true_iff.mp h
    exact Bool.and_eq_true_iff.mpr ⟨hallows, hle.normal _ hnormal⟩
  | unlock m =>
    intro post post' held hle h
    obtain ⟨hmem, hnormal⟩ := Bool.and_eq_true_iff.mp h
    exact Bool.and_eq_true_iff.mpr ⟨hmem, hle.normal _ hnormal⟩
  | timedWait m =>
    intro post post' held hle h
    obtain ⟨honce, hnormal⟩ := Bool.and_eq_true_iff.mp h
    exact Bool.and_eq_true_iff.mpr ⟨honce, hle.normal _ hnormal⟩
  | exit => exact fun _ _ => rfl
  | seq first next ihFirst ihNext =>
    intro post post' held hle h
    unfold check at h ⊢
    refine ihFirst ?_ h
    exact ⟨fun _ => ihNext hle, hle.brk, hle.ret⟩
  | choice left right ihLeft ihRight =>
    intro post post' held hle h
    obtain ⟨hleft, hright⟩ := Bool.and_eq_true_iff.mp h
    exact Bool.and_eq_true_iff.mpr ⟨ihLeft hle hleft, ihRight hle hright⟩
  | loop body ih =>
    intro post post' held hle h
    unfold check at h ⊢
    refine ih ?_ h
    exact ⟨fun _ => id, hle.normal, hle.ret⟩
  | brk => exact fun hle h => hle.brk _ h
  | ret ok => exact fun hle h => hle.ret ok _ h
  | call body onTrue onFalse ihBody ihTrue ihFalse =>
    intro post post' held hle h
    unfold check at h ⊢
    refine ihBody ?_ h
    refine ⟨fun _ => ihTrue hle, fun _ => id, fun ok held' hret => ?_⟩
    cases ok with
    | true => exact ihTrue hle hret
    | false => exact ihFalse hle hret

/-- What the rest of a thread asks of its command. -/
def post (order : Order M) : List (Frame M K) → Post M
  | [] => .done
  | .seq next :: stack => { post order stack with normal := next.check order (post order stack) }
  | .loop body :: stack =>
    { post order stack with
      normal := (Command.loop body).check order (post order stack)
      brk := (post order stack).normal }
  | .call onTrue onFalse :: stack =>
    { normal := onTrue.check order (post order stack)
      brk := fun _ => false
      ret := fun ok =>
        if ok then onTrue.check order (post order stack)
        else onFalse.check order (post order stack) }

/-- What is left of the thread keeps to the order. -/
def Thread.Ordered (order : Order M) (t : Thread M K) : Prop :=
  t.command.check order (post order t.stack) t.held = true

theorem Thread.ordered_start {command : Command M K} (h : command.Ordered order) :
    (Thread.start command).Ordered order := h

theorem Thread.ordered_step {t u : Thread M K} {branch : Bool} (h : t.Ordered order)
    (hstep : t.step branch = some u) : u.Ordered order := by
  obtain ⟨command, stack, held⟩ := t
  unfold Thread.Ordered at h ⊢
  cases command with
  | skip =>
    cases stack with
    | nil => cases hstep
    | cons frame stack =>
      cases frame with
      | seq | loop | call => exact Option.some.inj hstep ▸ h
  | lock | create | exit => cases hstep
  | unlock m =>
    simp only [step] at hstep
    split_ifs at hstep
    obtain rfl := Option.some.inj hstep
    exact (Bool.and_eq_true_iff.mp h).2
  | timedWait m =>
    simp only [step] at hstep
    split_ifs at hstep
    obtain rfl := Option.some.inj hstep
    obtain ⟨honce, hnormal⟩ := Bool.and_eq_true_iff.mp h
    exact Bool.and_eq_true_iff.mpr ⟨(Bool.and_eq_true_iff.mp honce).2, hnormal⟩
  | asleep m => exact Option.some.inj hstep ▸ h
  | seq first next => exact Option.some.inj hstep ▸ h
  | choice left right =>
    obtain ⟨hleft, hright⟩ := Bool.and_eq_true_iff.mp h
    obtain rfl := Option.some.inj hstep
    cases branch with
    | true => exact hleft
    | false => exact hright
  | loop body =>
    obtain rfl := Option.some.inj hstep
    have hbody := h
    unfold Command.check at hbody
    refine Command.check_mono ?_ hbody
    refine ⟨fun held' heq => ?_, fun _ => id, fun _ _ => id⟩
    -- the body ends with the mutexes it began with
    have hheld : held' = held := of_decide_eq_true heq
    rw [hheld]
    exact h
  | brk =>
    cases stack with
    | nil => cases hstep
    | cons frame stack =>
      cases frame with
      | seq | loop => exact Option.some.inj hstep ▸ h
      | call => cases hstep
  | ret ok =>
    cases stack with
    | nil => cases hstep
    | cons frame stack =>
      cases frame with
      | seq | loop => exact Option.some.inj hstep ▸ h
      | call onTrue onFalse =>
        obtain rfl := Option.some.inj hstep
        cases ok with
        | true => exact h
        | false => exact h
  | call body onTrue onFalse => exact Option.some.inj hstep ▸ h

theorem Thread.held_step {t u : Thread M K} {branch : Bool} (hstep : t.step branch = some u) :
    u.held ⊆ t.held := by
  unfold Thread.step at hstep
  split at hstep <;> try split_ifs at hstep
  all_goals cases hstep
  all_goals first
    | exact List.Subset.refl _
    | exact List.erase_subset

/-! ## All threads -/

/-- No mutex is held by two threads. -/
def Exclusive (s : System M K) : Prop :=
  ∀ (i j : ℕ) (t u : Thread M K) (m : M), s[i]? = some t → s[j]? = some u → m ∈ t.held →
    m ∈ u.held → i = j

/-- All threads keep to the order, and no mutex is held by two of them. -/
structure Inv (order : Order M) (s : System M K) : Prop where
  ordered : ∀ t ∈ s, t.Ordered order
  exclusive : Exclusive s

variable {s s' : System M K} {i j : ℕ} {t u : Thread M K} {m : M}

omit [DecidableEq M] in
theorem Free.not_mem (h : Free s i m) (hj : s[j]? = some u) (hij : j ≠ i) : m ∉ u.held :=
  h u (List.mem_eraseIdx_iff_getElem?.mpr ⟨j, hij, hj⟩)

omit [DecidableEq M] in
/-- A thread goes on with mutexes that it held before or that are free. -/
theorem Exclusive.set (h : Exclusive s) (hi : s[i]? = some t)
    (hheld : ∀ m ∈ u.held, m ∈ t.held ∨ Free s i m) : Exclusive (s.set i u) := by
  have hother : ∀ (j : ℕ) (v : Thread M K) (m : M), j ≠ i → s[j]? = some v → m ∈ u.held →
      m ∉ v.held := by
    intro j v m hji hj hmu hmv
    rcases hheld m hmu with hmt | hfree
    · exact hji (h j i v t m hj hi hmv hmt)
    · exact hfree.not_mem hj hji hmv
  have hself : (s.set i u)[i]? = some u :=
    List.getElem?_set_self (List.getElem?_eq_some_iff.mp hi).1
  intro j k v w m hj hk hmv hmw
  by_cases hji : j = i <;> by_cases hki : k = i
  · rw [hji, hki]
  · subst hji
    obtain rfl : u = v := Option.some.inj (hself.symm.trans hj)
    rw [List.getElem?_set_ne (Ne.symm hki)] at hk
    exact absurd hmw (hother k w m hki hk hmv)
  · subst hki
    obtain rfl : u = w := Option.some.inj (hself.symm.trans hk)
    rw [List.getElem?_set_ne (Ne.symm hji)] at hj
    exact absurd hmv (hother j v m hji hj hmw)
  · rw [List.getElem?_set_ne (Ne.symm hji)] at hj
    rw [List.getElem?_set_ne (Ne.symm hki)] at hk
    exact h j k v w m hj hk hmv hmw

omit [DecidableEq M] in
/-- A new thread holds nothing. -/
theorem Exclusive.concat (h : Exclusive s) (hu : u.held = []) : Exclusive (s ++ [u]) := by
  have hold : ∀ (j : ℕ) (v : Thread M K) (m : M), (s ++ [u])[j]? = some v → m ∈ v.held →
      s[j]? = some v := by
    intro j v m hj hm
    rcases Nat.lt_or_ge j s.length with hlt | hge
    · rwa [List.getElem?_append_left hlt] at hj
    · rw [List.getElem?_append_right hge] at hj
      have hv : v = u := List.mem_singleton.mp (List.mem_of_getElem? hj)
      rw [hv, hu] at hm
      cases hm
  intro j k v w m hj hk hmv hmw
  exact h j k v w m (hold j v m hj hmv) (hold k w m hk hmw) hmv hmw

theorem Inv.set (h : Inv order s) (hi : s[i]? = some t) (hu : u.Ordered order)
    (hheld : ∀ m ∈ u.held, m ∈ t.held ∨ Free s i m) : Inv order (s.set i u) := by
  refine ⟨fun v hv => ?_, h.exclusive.set hi hheld⟩
  rcases List.mem_or_eq_of_mem_set hv with hv | rfl
  · exact h.ordered v hv
  · exact hu

theorem inv_step (hprogram : ∀ kind, (program kind).Ordered order) {label : ℕ × Bool}
    (h : Inv order s) (hstep : step order program s label = some s') : Inv order s' := by
  obtain ⟨t, hi, hstep⟩ := Option.bind_eq_some_iff.mp hstep
  have ht := h.ordered t (List.mem_of_getElem? hi)
  split at hstep
  next m hcommand =>
    split_ifs at hstep with havailable
    obtain rfl := Option.some.inj hstep
    refine h.set hi ?_ fun m' hm' => ?_
    · unfold Thread.Ordered at ht
      rw [hcommand] at ht
      exact (Bool.and_eq_true_iff.mp ht).2
    · rcases List.mem_cons.mp hm' with rfl | hm'
      · exact .inr havailable.1
      · exact .inl hm'
  next kind hcommand =>
    obtain rfl := Option.some.inj hstep
    have hset : Inv order (s.set label.1 { t with command := .skip }) := by
      refine h.set hi ?_ fun _ => .inl
      unfold Thread.Ordered at ht
      rw [hcommand] at ht
      exact ht
    refine ⟨fun v hv => ?_, hset.exclusive.concat rfl⟩
    rcases List.mem_append.mp hv with hv | hv
    · exact hset.ordered v hv
    · exact List.mem_singleton.mp hv ▸ Thread.ordered_start (hprogram kind)
  next =>
    obtain ⟨u, hu, rfl⟩ := Option.map_eq_some_iff.mp hstep
    exact h.set hi (Thread.ordered_step ht hu) fun _ hm => .inl (Thread.held_step hu hm)

theorem inv_initial {kinds : List K} (hprogram : ∀ kind, (program kind).Ordered order) :
    Inv order (kinds.map fun kind => Thread.start (program kind)) := by
  refine ⟨fun t ht => ?_, fun i j t u m hi _ hm => ?_⟩
  · obtain ⟨kind, -, rfl⟩ := List.mem_map.mp ht
    exact Thread.ordered_start (hprogram kind)
  · obtain ⟨kind, -, rfl⟩ := List.mem_map.mp (List.mem_of_getElem? hi)
    cases hm

/-! ## What the order is good for -/

/-- The mutex a thread waits for is held by another one, and is above all that it holds itself. -/
theorem Inv.waits (h : Inv order s) (hwaits : Waits order s i m) (hj : s[j]? = some u)
    (hm : m ∈ u.held) : j ≠ i ∧ ∀ t, s[i]? = some t → ∀ m' ∈ t.held, order.rank m' < order.rank m := by
  obtain ⟨t, hi, hcommand, havailable⟩ := hwaits
  have hallows : order.allows t.held m = true := by
    have ht := h.ordered t (List.mem_of_getElem? hi)
    unfold Thread.Ordered at ht
    rw [hcommand] at ht
    exact (Bool.and_eq_true_iff.mp ht).1
  unfold Order.allows at hallows
  split_ifs at hallows with hself
  · -- the thread holds the mutex, which is recursive: it could take it again
    exfalso
    refine havailable ⟨fun v hv hmv => ?_, fun _ => hallows⟩
    obtain ⟨k, hki, hk⟩ := List.mem_eraseIdx_iff_getElem?.mp hv
    exact hki (h.exclusive k i v t m hk hi hmv hself)
  · constructor
    · rintro rfl
      exact hself (Option.some.inj (hj.symm.trans hi) ▸ hm)
    · intro t' ht' m' hm'
      obtain rfl : t = t' := Option.some.inj (hi.symm.trans ht')
      exact of_decide_eq_true (List.all_eq_true.mp hallows m' hm')

/-- Of threads that wait for each other, the one that waits for the highest mutex waits for one that
a thread holds which waits for a higher one. -/
theorem Inv.not_deadlocked (h : Inv order s) (S : Set ℕ) : ¬ Deadlocked order s S := by
  rintro ⟨hne, hS⟩
  have : Nonempty M := by
    obtain ⟨i, hi⟩ := hne
    obtain ⟨m, -⟩ := hS i hi
    exact ⟨m⟩
  choose! mutex hwaits hheld using hS
  have hfinite : S.Finite := by
    refine (Set.finite_lt_nat s.length).subset fun i hi => ?_
    obtain ⟨t, ht, -⟩ := hwaits i hi
    exact (List.getElem?_eq_some_iff.mp ht).1
  obtain ⟨i, hi, hmax⟩ := Set.exists_max_image S (fun i => order.rank (mutex i)) hfinite hne
  obtain ⟨j, hj, t, ht, hm⟩ := hheld i hi
  obtain ⟨k, -, u, hu, hmu⟩ := hheld j hj
  have hlt := (h.waits (hwaits j hj) hu hmu).2 t ht (mutex i) hm
  exact absurd (hmax j hj) (Nat.not_le.mpr hlt)

theorem Inv.safe (h : Inv order s) : Safe order s where
  not_deadlocked := h.not_deadlocked
  once t ht m hcommand := by
    have hordered := h.ordered t ht
    unfold Thread.Ordered at hordered
    rw [hcommand] at hordered
    exact of_decide_eq_true (Bool.and_eq_true_iff.mp (Bool.and_eq_true_iff.mp hordered).1).1
  ended t ht hended := by
    have hordered := h.ordered t ht
    unfold Thread.Ordered at hordered
    rw [hended.1] at hordered
    rcases hended.2 with hcommand | ⟨ok, hcommand⟩ <;> rw [hcommand] at hordered <;>
      exact List.isEmpty_iff.mp hordered

/-- **Order.** If every program keeps to the order, every reachable state is safe. -/
theorem safe_of_reach (hprogram : ∀ kind, (program kind).Ordered order) {kinds : List K}
    (h : Lts.Reach (step order program) Lts.Any (kinds.map fun kind => Thread.start (program kind))
      s) : Safe order s := by
  refine Inv.safe (h.invariant (inv_initial hprogram) ?_)
  intro _ _ _ hinv _ hstep
  exact inv_step hprogram hinv hstep

end LockOrder
