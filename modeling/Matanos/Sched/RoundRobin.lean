import Mathlib.Tactic

/-!
What the task queues are for: a round-robin scheduler over an arbitrary type of tasks.

The state is a zipper: the ready queue is `before ++ cur :: after`, so that the running task
is in it by construction, and `asleep` lists the sleepers with their deadlines. No task
stands in two places and no deadline is zero, which are fields of the structure.

* `rotate`, `suspend`, `wake`, `spawn`: the four changes of the queues, a dispatch, the
  running task going to sleep, the first expired sleeper becoming ready and a new task;
* `turns`: the order in which the ready tasks will get the processor. `turns_rotate` and
  `turns_suspend` say that a dispatch takes the first of them, `turns_spawn` and
  `turns_wake` that new and woken tasks do not reorder the others;
* `Step.pair_turns`: what one step does to the order of two tasks that stay ready, from
  which `pair_alternates` gets alternation over whole runs.
-/

namespace Matanos

/-- The round-robin scheduler: ready queue, running task and sleepers with deadlines. -/
structure RoundRobin (T : Type*) where
  before : List T
  cur : T
  after : List T
  asleep : List (T × ℕ)
  nodup : (before ++ cur :: after ++ asleep.map Prod.fst).Nodup
  deadline_ne_zero : ∀ p ∈ asleep, p.2 ≠ 0

namespace RoundRobin

variable {T : Type*}

/-- The ready queue in queue order. -/
def ready (q : RoundRobin T) : List T := q.before ++ q.cur :: q.after

/-- The sleepers in queue order. -/
def sleepers (q : RoundRobin T) : List T := q.asleep.map Prod.fst

/-- Every task of the system. -/
def tasks (q : RoundRobin T) : List T := q.ready ++ q.sleepers

/-- The ready tasks in the order in which they will get the processor. -/
def turns (q : RoundRobin T) : List T := q.after ++ q.before ++ [q.cur]

/-- The task a dispatch would choose, `none` when the running task is alone. -/
def next? (q : RoundRobin T) : Option T := (q.after ++ q.before).head?

lemma cur_mem_ready (q : RoundRobin T) : q.cur ∈ q.ready := by simp [ready]

lemma mem_turns {q : RoundRobin T} {t : T} : t ∈ q.turns ↔ t ∈ q.ready := by
  simp only [turns, ready, List.mem_append, List.mem_cons, List.not_mem_nil, or_false]
  tauto

lemma turns_perm_ready (q : RoundRobin T) : q.turns.Perm q.ready := by
  classical
  rw [List.perm_iff_count]
  intro z
  simp only [turns, ready, List.count_append, List.count_cons, List.count_nil]
  omega

lemma turns_nodup (q : RoundRobin T) : q.turns.Nodup :=
  (turns_perm_ready q).nodup_iff.mpr (List.nodup_append.mp q.nodup).1

/-! ### The changes of the queues -/

/-- The processor goes to the next task in turn. -/
def rotate : RoundRobin T → RoundRobin T
  | ⟨b, c, x :: a, s, hn, hd⟩ => ⟨b ++ [c], x, a, s, by simpa using hn, hd⟩
  | ⟨x :: b, c, [], s, hn, hd⟩ => ⟨[], x, b ++ [c], s, by simpa using hn, hd⟩
  | ⟨[], c, [], s, hn, hd⟩ => ⟨[], c, [], s, hn, hd⟩

/-- Moving the running task behind the sleepers keeps the tasks. -/
lemma perm_moveBehind (b a l : List T) (c : T) :
    (b ++ a ++ (l ++ [c])).Perm (b ++ c :: a ++ l) := by
  classical
  rw [List.perm_iff_count]
  intro z
  simp only [List.count_append, List.count_cons, List.count_nil]
  omega

/-- The running task goes to sleep until `d` and the next task in turn runs; a task that is
alone stays. -/
def suspend (d : ℕ) (hd : d ≠ 0) : RoundRobin T → RoundRobin T
  | ⟨b, c, x :: a, s, hn, hs⟩ =>
      ⟨b, x, a, s ++ [(c, d)], by
        rw [List.map_append]
        exact (perm_moveBehind b (x :: a) (s.map Prod.fst) c).nodup_iff.mpr hn,
        by simpa [or_imp, forall_and, hd] using hs⟩
  | ⟨x :: b, c, [], s, hn, hs⟩ =>
      ⟨[], x, b, s ++ [(c, d)], by
        rw [List.map_append]
        have hp := perm_moveBehind (x :: b) [] (s.map Prod.fst) c
        simpa using hp.nodup_iff.mpr hn,
        by simpa [or_imp, forall_and, hd] using hs⟩
  | ⟨[], c, [], s, hn, hs⟩ => ⟨[], c, [], s, hn, hs⟩

/-- A sleeper whose deadline has passed at tick `now`. -/
def expired (now : ℕ) (p : T × ℕ) : Bool := p.2 < now

/-- The first sleeper, in queue order, whose deadline has passed. -/
def firstExpired (now : ℕ) (q : RoundRobin T) : Option T :=
  (q.asleep.find? (expired now)).map Prod.fst

/-- Taking the first expired sleeper out of the sleep queue keeps the tasks. -/
lemma perm_wake (now : ℕ) (l : List T) (s : List (T × ℕ)) :
    (l ++ ((s.find? (expired now)).map Prod.fst).toList
      ++ (s.eraseP (expired now)).map Prod.fst).Perm (l ++ s.map Prod.fst) := by
  classical
  cases h : s.find? (expired now) with
  | none =>
      rw [List.eraseP_of_forall_not (by simpa using h)]
      simp
  | some p =>
      obtain ⟨hp, as, bs, rfl, has⟩ := List.find?_eq_some_iff_append.mp h
      rw [List.eraseP_append_right _ (by simpa using has), List.eraseP_cons_of_pos hp]
      rw [List.perm_iff_count]
      intro z
      simp only [Option.map_some, Option.toList_some, List.map_append, List.map_cons,
        List.count_append, List.count_cons, List.count_nil]
      omega

/-- The first expired sleeper, if there is one, becomes ready behind all ready tasks. -/
def wake (now : ℕ) (q : RoundRobin T) : RoundRobin T where
  before := q.before
  cur := q.cur
  after := q.after ++ (q.firstExpired now).toList
  asleep := q.asleep.eraseP (expired now)
  nodup := by
    have hp := perm_wake now q.ready q.asleep
    simpa [ready, firstExpired] using hp.nodup_iff.mpr q.nodup
  deadline_ne_zero p hp := q.deadline_ne_zero p (List.mem_of_mem_eraseP hp)

/-- A new task becomes ready behind all ready tasks. -/
def spawn (t : T) (q : RoundRobin T) (ht : t ∉ q.tasks) : RoundRobin T where
  before := q.before
  cur := q.cur
  after := q.after ++ [t]
  asleep := q.asleep
  nodup := by
    have hn : (t :: q.tasks).Nodup := List.nodup_cons.mpr ⟨ht, q.nodup⟩
    refine List.Perm.nodup_iff ?_ |>.mpr hn
    classical
    rw [List.perm_iff_count]
    intro z
    simp only [tasks, ready, sleepers, List.count_append, List.count_cons, List.count_nil]
    omega
  deadline_ne_zero := q.deadline_ne_zero

/-! ### The queues after a change -/

@[simp] lemma ready_rotate (q : RoundRobin T) : q.rotate.ready = q.ready := by
  obtain ⟨b, c, a, s, hn, hd⟩ := q
  rcases a with _ | ⟨x, a⟩
  · rcases b with _ | ⟨x, b⟩ <;> simp [rotate, ready]
  · simp [rotate, ready]

@[simp] lemma asleep_rotate (q : RoundRobin T) : q.rotate.asleep = q.asleep := by
  obtain ⟨b, c, a, s, hn, hd⟩ := q
  rcases a with _ | ⟨x, a⟩
  · rcases b with _ | ⟨x, b⟩ <;> rfl
  · rfl

lemma cur_rotate (q : RoundRobin T) : q.rotate.cur = q.next?.getD q.cur := by
  obtain ⟨b, c, a, s, hn, hd⟩ := q
  rcases a with _ | ⟨x, a⟩
  · rcases b with _ | ⟨x, b⟩ <;> simp [rotate, next?]
  · simp [rotate, next?]

/-- What `suspend` leaves when another task is ready. -/
lemma suspend_eq {q : RoundRobin T} {x : T} {d : ℕ} (hd : d ≠ 0) (h : q.next? = some x) :
    (q.suspend d hd).ready = q.before ++ q.after ∧
      (q.suspend d hd).asleep = q.asleep ++ [(q.cur, d)] ∧ (q.suspend d hd).cur = x := by
  obtain ⟨b, c, a, s, hn, hs⟩ := q
  rcases a with _ | ⟨y, a⟩
  · rcases b with _ | ⟨y, b⟩
    · simp [next?] at h
    · exact ⟨by simp [suspend, ready], rfl, by simpa [next?, suspend] using h⟩
  · exact ⟨by simp [suspend, ready], rfl, by simpa [next?, suspend] using h⟩

lemma ready_wake (now : ℕ) (q : RoundRobin T) :
    (q.wake now).ready = q.ready ++ (q.firstExpired now).toList := by
  simp [wake, ready]

lemma ready_spawn {q : RoundRobin T} {t : T} (ht : t ∉ q.tasks) :
    (q.spawn t ht).ready = q.ready ++ [t] := by
  simp [spawn, ready]

/-! ### The order of turns -/

lemma next?_eq_none {q : RoundRobin T} (h : q.next? = none) : q.after = [] ∧ q.before = [] := by
  simpa [next?] using h

/-- A dispatch takes the first task in turn and puts it last. -/
lemma turns_rotate {q : RoundRobin T} {x : T} (h : q.next? = some x) :
    ∃ m, q.turns = x :: m ∧ q.rotate.turns = m ++ [x] ∧ q.rotate.cur = x := by
  obtain ⟨b, c, a, s, hn, hd⟩ := q
  cases a with
  | cons y a =>
      obtain rfl : y = x := by simpa [next?] using h
      exact ⟨a ++ b ++ [c], by simp [turns], by simp [turns, rotate], rfl⟩
  | nil =>
      cases b with
      | nil => simp [next?] at h
      | cons y b =>
          obtain rfl : y = x := by simpa [next?] using h
          exact ⟨b ++ [c], by simp [turns], by simp [turns, rotate], rfl⟩

lemma rotate_of_alone {q : RoundRobin T} (h : q.next? = none) : q.rotate = q := by
  obtain ⟨b, c, a, s, hn, hd⟩ := q
  obtain ⟨rfl, rfl⟩ : a = [] ∧ b = [] := by simpa [next?] using h
  rfl

/-- Going to sleep gives the processor to the first task in turn and leaves the turns. -/
lemma turns_suspend {q : RoundRobin T} {x : T} {d : ℕ} (hd : d ≠ 0) (h : q.next? = some x) :
    ∃ m, q.turns = x :: m ++ [q.cur] ∧ (q.suspend d hd).turns = m ++ [x] := by
  obtain ⟨b, c, a, s, hn, hs⟩ := q
  cases a with
  | cons y a =>
      obtain rfl : y = x := by simpa [next?] using h
      exact ⟨a ++ b, by simp [turns], by simp [turns, suspend]⟩
  | nil =>
      cases b with
      | nil => simp [next?] at h
      | cons y b =>
          obtain rfl : y = x := by simpa [next?] using h
          exact ⟨b, by simp [turns], by simp [turns, suspend]⟩

lemma suspend_of_alone {q : RoundRobin T} {d : ℕ} (hd : d ≠ 0) (h : q.next? = none) :
    q.suspend d hd = q := by
  obtain ⟨b, c, a, s, hn, hs⟩ := q
  obtain ⟨rfl, rfl⟩ : a = [] ∧ b = [] := by simpa [next?] using h
  rfl

lemma turns_spawn {q : RoundRobin T} {t : T} (ht : t ∉ q.tasks) :
    (q.spawn t ht).turns = q.after ++ [t] ++ q.before ++ [q.cur] := rfl

lemma turns_wake (now : ℕ) (q : RoundRobin T) :
    (q.wake now).turns = q.after ++ (q.firstExpired now).toList ++ q.before ++ [q.cur] := rfl

/-- A woken task was not ready. -/
lemma notMem_ready_of_firstExpired {q : RoundRobin T} {now : ℕ} {t : T}
    (h : q.firstExpired now = some t) : t ∉ q.ready := by
  obtain ⟨p, hp, rfl⟩ := Option.map_eq_some_iff.mp h
  have hmem : p.1 ∈ q.sleepers := List.mem_map_of_mem (List.mem_of_find?_eq_some hp)
  exact fun hr => (List.nodup_append.mp q.nodup).2.2 p.1 hr p.1 hmem rfl

/-! ### Steps and alternation -/

/-- One step of the scheduler with the task it dispatches, if it dispatches one. -/
inductive Step : RoundRobin T → Option T → RoundRobin T → Prop
  | spawn (q : RoundRobin T) (t : T) (ht : t ∉ q.tasks) : Step q none (q.spawn t ht)
  | sleep (q : RoundRobin T) (d : ℕ) (hd : d ≠ 0) : Step q q.next? (q.suspend d hd)
  | tick (q : RoundRobin T) (now : ℕ) :
      Step q (q.wake now).next? (q.wake now).rotate
  | idle (q : RoundRobin T) : Step q none q

section Pair

variable [DecidableEq T] {t u : T} {q q' : RoundRobin T} {d : Option T}

/-- The turns of two tasks among all turns. -/
def pairTurns (t u : T) (q : RoundRobin T) : List T := q.turns.filter fun x => x = t ∨ x = u

lemma pairTurns_spawn {n : T} (hn : n ∉ q.tasks) (ht : t ∈ q.ready) (hu : u ∈ q.ready) :
    pairTurns t u (q.spawn n hn) = pairTurns t u q := by
  have hnt : n ≠ t := by rintro rfl; exact hn (by simp [tasks, ht])
  have hnu : n ≠ u := by rintro rfl; exact hn (by simp [tasks, hu])
  rw [pairTurns, pairTurns, turns_spawn]
  simp [turns, hnt, hnu]

lemma pairTurns_wake (now : ℕ) (ht : t ∈ q.ready) (hu : u ∈ q.ready) :
    pairTurns t u (q.wake now) = pairTurns t u q := by
  rw [pairTurns, pairTurns, turns_wake]
  cases h : q.firstExpired now with
  | none => simp [turns]
  | some w =>
      have hw := notMem_ready_of_firstExpired h
      have hwt : w ≠ t := by rintro rfl; exact hw ht
      have hwu : w ≠ u := by rintro rfl; exact hw hu
      simp [turns, hwt, hwu]

/-- A dispatch of one of the two tasks swaps their turns, and it was that task's turn. -/
lemma pairTurns_rotate {x : T} (h : q.next? = some x) :
    (x = t ∨ x = u → ∃ m, pairTurns t u q = x :: m ∧ pairTurns t u q.rotate = m ++ [x]) ∧
      (¬ (x = t ∨ x = u) → pairTurns t u q.rotate = pairTurns t u q) := by
  obtain ⟨m, hq, hr, _⟩ := turns_rotate h
  constructor
  · intro hx
    exact ⟨m.filter fun x => x = t ∨ x = u, by simp [pairTurns, hq, hx],
      by simp [pairTurns, hr, hx]⟩
  · intro hx
    have hx' : x ≠ t ∧ x ≠ u := not_or.mp hx
    simp [pairTurns, hq, hr, hx']

/-- **What one step does to the turns of two tasks that stay ready**: a dispatch of one of
them was its turn and moves it behind the other, every other step leaves them. -/
lemma Step.pair_turns (h : Step q d q') (ht : t ∈ q.ready) (hu : u ∈ q.ready)
    (ht' : t ∈ q'.ready) (hu' : u ∈ q'.ready) :
    (∃ x, d = some x ∧ (x = t ∨ x = u) ∧
        ∃ m, pairTurns t u q = x :: m ∧ pairTurns t u q' = m ++ [x]) ∨
      ((∀ x, d = some x → x ≠ t ∧ x ≠ u) ∧ pairTurns t u q' = pairTurns t u q) := by
  cases h with
  | spawn n hn => exact Or.inr ⟨by simp, pairTurns_spawn hn ht hu⟩
  | idle => exact Or.inr ⟨by simp, rfl⟩
  | tick now =>
      cases hx : (q.wake now).next? with
      | none =>
          refine Or.inr ⟨by simp, ?_⟩
          rw [rotate_of_alone hx, pairTurns_wake now ht hu]
      | some x =>
          obtain ⟨hin, hout⟩ := pairTurns_rotate (t := t) (u := u) hx
          rw [pairTurns_wake now ht hu] at hin hout
          by_cases hxtu : x = t ∨ x = u
          · exact Or.inl ⟨x, rfl, hxtu, hin hxtu⟩
          · exact Or.inr ⟨fun y hy => by cases hy; exact not_or.mp hxtu, hout hxtu⟩
  | sleep d hd =>
      cases hx : q.next? with
      | none => exact Or.inr ⟨by simp, by rw [suspend_of_alone hd hx]⟩
      | some x =>
          obtain ⟨m, hq, hq'⟩ := turns_suspend hd hx
          -- the task that goes to sleep is neither `t` nor `u`: it leaves the turns
          have hcur : q.cur ∉ (q.suspend d hd).turns := by
            have hn := q.turns_nodup
            rw [hq] at hn
            rw [hq']
            simp only [List.cons_append, List.nodup_cons, List.nodup_append,
              List.mem_append, List.mem_singleton] at hn ⊢
            rintro (hm | rfl)
            · exact hn.2.2.2 _ hm _ rfl rfl
            · exact hn.1 (Or.inr rfl)
          have hct : q.cur ≠ t := by rintro h; exact hcur (h ▸ mem_turns.mpr ht')
          have hcu : q.cur ≠ u := by rintro h; exact hcur (h ▸ mem_turns.mpr hu')
          by_cases hxtu : x = t ∨ x = u
          · refine Or.inl ⟨x, rfl, hxtu, m.filter fun x => x = t ∨ x = u, ?_, ?_⟩
            · simp [pairTurns, hq, hxtu, hct, hcu]
            · simp [pairTurns, hq', hxtu]
          · have hx' : x ≠ t ∧ x ≠ u := not_or.mp hxtu
            exact Or.inr ⟨fun y hy => by cases hy; exact hx',
              by simp [pairTurns, hq, hq', hx', hct, hcu]⟩

/-- Two different ready tasks have one turn each. -/
lemma pairTurns_eq (hne : t ≠ u) (ht : t ∈ q.ready) (hu : u ∈ q.ready) :
    pairTurns t u q = [t, u] ∨ pairTurns t u q = [u, t] := by
  have hperm : (pairTurns t u q).Perm [t, u] := by
    refine (List.perm_ext_iff_of_nodup (q.turns_nodup.filter _) (by simp [hne])).mpr fun x => ?_
    simp only [List.mem_filter, mem_turns, decide_eq_true_eq, List.mem_cons,
      List.not_mem_nil, or_false]
    constructor
    · exact fun h => h.2
    · rintro (rfl | rfl)
      · exact ⟨ht, Or.inl rfl⟩
      · exact ⟨hu, Or.inr rfl⟩
  obtain ⟨a, b, hab⟩ := List.length_eq_two.mp (hperm.length_eq.trans rfl)
  rw [hab] at hperm ⊢
  have ha : a = t ∨ a = u := by simpa using hperm.subset (a := a) (by simp)
  rcases ha with rfl | rfl
  · obtain rfl : b = u := by simpa using (List.perm_cons a).mp hperm
    exact Or.inl rfl
  · obtain rfl : b = t := by
      simpa using (List.perm_cons a).mp (hperm.trans (List.Perm.swap a t []))
    exact Or.inr rfl

/-- Runs of the scheduler during which `t` and `u` stay ready, with the tasks dispatched. -/
inductive ReadyRun (t u : T) : RoundRobin T → List T → RoundRobin T → Prop
  | nil (q : RoundRobin T) : ReadyRun t u q [] q
  | cons {q q' q'' : RoundRobin T} {d : Option T} {ds : List T} : Step q d q' →
      t ∈ q'.ready → u ∈ q'.ready → ReadyRun t u q' ds q'' →
      ReadyRun t u q (d.toList ++ ds) q''

/-- During a run in which two tasks stay ready, their dispatches alternate, the first of
them being the one whose turn it is. -/
theorem pair_alternates {ds : List T} (hne : t ≠ u) (ht : t ∈ q.ready) (hu : u ∈ q.ready)
    (h : ReadyRun t u q ds q') :
    (ds.filter fun x => x = t ∨ x = u).IsChain (· ≠ ·) ∧
      ∀ x, (ds.filter fun x => x = t ∨ x = u).head? = some x →
        (pairTurns t u q).head? = some x := by
  induction h with
  | nil q => simp
  | @cons q q₁ q₂ d ds hstep ht' hu' _ ih =>
      obtain ⟨hchain, hhead⟩ := ih ht' hu'
      rcases hstep.pair_turns ht hu ht' hu' with ⟨x, rfl, hx, m, hq, hq₁⟩ | ⟨hd, hq₁⟩
      · -- a dispatch of `t` or `u`: the next one is of the other
        simp only [Option.toList_some, List.singleton_append, List.filter_cons,
          decide_eq_true hx, if_true, List.head?_cons, hq]
        refine ⟨?_, fun y hy => hy⟩
        refine List.isChain_cons.mpr ⟨fun y hy => ?_, hchain⟩
        have hy' := hhead y hy
        rw [hq₁] at hy'
        rcases pairTurns_eq hne ht hu with h2 | h2
        all_goals
          rw [hq, List.cons.injEq] at h2
          obtain ⟨rfl, rfl⟩ := h2
          obtain rfl : _ = y := by simpa using hy'
        · exact hne
        · exact hne.symm
      · -- any other step leaves their turns alone
        have hskip : (d.toList ++ ds).filter (fun x => decide (x = t ∨ x = u))
            = ds.filter fun x => decide (x = t ∨ x = u) := by
          cases d with
          | none => rfl
          | some x => simp [(hd x rfl).1, (hd x rfl).2]
        rw [hskip, ← hq₁]
        exact ⟨hchain, hhead⟩

end Pair

end RoundRobin

end Matanos
