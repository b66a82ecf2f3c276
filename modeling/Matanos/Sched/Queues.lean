import Matanos.Sched.Task

/-!
What the functions of the scheduler do to the two linked lists, stated on the lists.

* `Queues s R S`: the ready queue is the list `R` and the sleep queue the list `S`, with no
  task in both; `Linked s b c a S`: the state in the middle of `sleep`, where the running
  task `c` is linked behind the sleepers `S` while its `next` still leads on into the ready
  queue `b ++ c :: a`.
* `linkAtTail_ready`, `wakeTask_queues`, `switchTask_awake`: one specification for each
  piece of code on `Queues`;
* `linkSleeper_linked` and `switchTask_linked`: `sleep` passes through `Linked`, and it is
  the unlinking in `switch_task` that ends it.
-/

namespace Matanos

namespace Kernel

open Lib

variable {s : Kernel} {R S A B a b : List ℕ} {c t y : ℕ}

/-- The ready queue is the list `R`, the sleep queue the list `S`, and they share no task. -/
structure Queues (s : Kernel) (R S : List ℕ) : Prop where
  ready : IsList s.next s.readyQueue R
  asleep : IsList s.next s.sleepQueue S
  nodup : (R ++ S).Nodup
  fits : (R ++ S).length ≤ s.created.length

/-- The running task `c` is linked behind the sleepers `S` and still in the ready queue. -/
structure Linked (s : Kernel) (b : List ℕ) (c : ℕ) (a S : List ℕ) : Prop where
  ready : IsList s.next s.readyQueue (b ++ c :: a)
  asleep : IsList s.next s.sleepQueue (S ++ c :: a)
  nodup : (b ++ c :: a ++ S).Nodup
  fits : (b ++ c :: a ++ S).length ≤ s.created.length

/-- The globals that neither `switch_task` nor the changes of the queues touch. -/
structure SameGlobals (s s' : Kernel) : Prop where
  created : s'.created = s.created
  tick : s'.tick = s.tick
  nextPid : s'.nextPid = s.nextPid

lemma SameGlobals.trans {s s' s'' : Kernel} (h : SameGlobals s s') (h' : SameGlobals s' s'') :
    SameGlobals s s'' :=
  ⟨h'.created.trans h.created, h'.tick.trans h.tick, h'.nextPid.trans h.nextPid⟩

@[simp] lemma setNext_fields (s : Kernel) (p v : ℕ) :
    (s.setNext p v).created = s.created ∧ (s.setNext p v).tick = s.tick ∧
      (s.setNext p v).nextPid = s.nextPid ∧ (s.setNext p v).readyQueue = s.readyQueue ∧
      (s.setNext p v).sleepQueue = s.sleepQueue ∧
      (s.setNext p v).currentTask = s.currentTask ∧
      (s.setNext p v).tmpCurrentTask = s.tmpCurrentTask :=
  ⟨rfl, rfl, rfl, rfl, rfl, rfl, rfl⟩

/-! ### Linking at the tail -/

/-- Walking to the tail of a list ends at its last node. -/
lemma linkAtTail_eq {head : ℕ} {l : List ℕ} (h : IsList s.next head (l ++ [y]))
    (hl : l.length ≤ s.created.length) (p : ℕ) :
    s.linkAtTail head p = some (s.setNext y p) := by
  rw [linkAtTail, Kernel.seek, seek_tail h hl, Option.map_some]

/-- Appending a task whose `next` is null extends the list by it. -/
lemma isList_setNext_tail {head : ℕ} {l : List ℕ} (h : IsList s.next head (l ++ [y]))
    (ht : t ∉ l ++ [y]) (ht0 : t ≠ 0) (hnext : s.next t = 0) :
    IsList (s.setNext y t).next head (l ++ [y] ++ [t]) := by
  have hyl : y ∉ l := by
    have := h.nodup
    simp only [List.nodup_append, List.mem_singleton] at this
    exact fun hm => this.2.2 y hm y rfl rfl
  have hty : t ≠ y := by rintro rfl; exact ht (by simp)
  rw [next_setNext]
  refine seg_concat.mpr ⟨Seg.update_last h hyl, ht0, ?_⟩
  rw [Function.update_of_ne hty, hnext]

/-- A list none of whose nodes is assigned survives the assignment. -/
lemma isList_setNext {head : ℕ} {l : List ℕ} (h : IsList s.next head l) (hy : y ∉ l) (v : ℕ) :
    IsList (s.setNext y v).next head l := by
  rw [next_setNext]
  exact Seg.update_of_notMem h hy

/-- Appending an unlinked task to the ready queue. -/
lemma linkAtTail_ready (h : s.Queues R S) (hR : R ≠ []) (ht : t ∉ R ++ S) (ht0 : t ≠ 0)
    (hnext : s.next t = 0) (hroom : (R ++ S).length < s.created.length) :
    ∃ y, s.linkAtTail s.readyQueue t = some (s.setNext y t) ∧
      (s.setNext y t).Queues (R ++ [t]) S := by
  obtain ⟨l, y, rfl⟩ : ∃ l y, R = l ++ [y] := ⟨_, _, (List.dropLast_append_getLast hR).symm⟩
  have hfit := h.fits
  simp only [List.length_append, List.length_singleton] at hfit hroom
  have hyS : y ∉ S := fun hm => (List.nodup_append.mp h.nodup).2.2 y (by simp) y hm rfl
  refine ⟨y, linkAtTail_eq h.ready (by omega) t, ?_, ?_, ?_, ?_⟩
  · exact isList_setNext_tail h.ready (fun hm => ht (by simp at hm ⊢; tauto)) ht0 hnext
  · exact isList_setNext h.asleep hyS t
  · have hn : (t :: (l ++ [y] ++ S)).Nodup := List.nodup_cons.mpr ⟨ht, h.nodup⟩
    refine (List.Perm.nodup_iff ?_).mpr hn
    rw [List.append_assoc _ [t] S]
    exact List.perm_middle
  · simp only [List.length_append, List.length_singleton, setNext_fields]
    omega

/-! ### Cutting a task out -/

/-- Cutting a task out of a list redirects at most one node before it. -/
lemma cut_spec {head : ℕ} (h : IsList s.next head (A ++ t :: B))
    (hfit : A.length ≤ s.created.length) :
    ∃ task head', s.cut head t = some ({ s with task := task }, head') ∧
      IsList { s with task := task }.next head' (A ++ B) ∧
      (∀ x ∉ A, { s with task := task }.next x = s.next x) ∧
      { s with task := task }.eos = s.eos := by
  have hn := h.nodup
  obtain ⟨hseg, _, hB⟩ := isList_append_cons.mp h
  rcases List.eq_nil_or_concat A with rfl | ⟨l, y, rfl⟩
  · refine ⟨s.task, s.next t, ?_, hB, fun x _ => rfl, rfl⟩
    rw [cut, if_pos h.1]
  · rw [List.concat_eq_append] at *
    have hy : y ∉ l ∧ y ∉ B ∧ t ∉ l ++ [y] := by
      simp only [List.append_assoc, List.singleton_append, List.nodup_append, List.nodup_cons,
        List.mem_cons] at hn
      refine ⟨fun hm => hn.2.2 y hm y (Or.inl rfl) rfl, fun hm => hn.2.1.1 (Or.inr hm), ?_⟩
      simp only [List.mem_append, List.mem_singleton]
      rintro (hm | rfl)
      · exact hn.2.2 t hm t (Or.inr (Or.inl rfl)) rfl
      · exact hn.2.1.1 (Or.inl rfl)
    have hhead : head ≠ t := by
      rintro rfl
      cases l with
      | nil => exact hy.2.2 (by simp [hseg.1])
      | cons z zs => exact hy.2.2 (by simp [hseg.1])
    have hseek : s.seek t head = some y := by
      refine seek_eq hseg (fun hm => hy.2.2 (List.mem_of_mem_tail hm)) ?_
      simp only [List.length_append, List.length_singleton] at hfit
      omega
    refine ⟨(s.setNext y (s.next t)).task, head, ?_, ?_, ?_, ?_⟩
    · rw [cut, if_neg hhead, hseek]
      rfl
    · change IsList (s.setNext y (s.next t)).next head _
      rw [next_setNext]
      exact seg_append.mpr ⟨s.next t, Seg.update_last hseg hy.1, Seg.update_of_notMem hB hy.2.1⟩
    · intro x hx
      change (s.setNext y (s.next t)).next x = _
      rw [next_setNext, Function.update_of_ne (by rintro rfl; exact hx (by simp))]
    · exact eos_setNext s y _

/-! ### Waking a sleeper -/

/-- **The loop body of `timer_callback`**: an expired sleeper moves behind the ready queue. -/
lemma wakeTask_queues (h : s.Queues R (A ++ t :: B)) (hR : R ≠ []) :
    ∃ s', s.wakeTask t = some s' ∧ s'.Queues (R ++ [t]) (A ++ B) ∧
      s'.eos = Function.update s.eos t 0 ∧ SameGlobals s s' ∧
      s'.currentTask = s.currentTask ∧ s'.next t = 0 := by
  obtain ⟨l, y, rfl⟩ : ∃ l y, R = l ++ [y] := ⟨_, _, (List.dropLast_append_getLast hR).symm⟩
  have hn := h.nodup
  have hfit := h.fits
  simp only [List.length_append, List.length_cons, List.length_nil] at hfit
  have ht0 : t ≠ 0 := h.asleep.ne_zero t (by simp)
  have hdis : ∀ x ∈ l ++ [y], x ∉ A ++ t :: B :=
    fun x hx hx' => (List.nodup_append.mp hn).2.2 x hx x hx' rfl
  have htR : t ∉ l ++ [y] := fun hx => hdis t hx (by simp)
  have htAB : t ∉ A ++ B := (List.nodup_middle.mp (List.nodup_append.mp hn).2.1).notMem
  have hasleep : IsList (s.setEos t 0).next (s.setEos t 0).sleepQueue (A ++ t :: B) := by
    rw [next_setEos]; exact h.asleep
  obtain ⟨task, head, hcut, hlist, hsame, heos⟩ :=
    cut_spec hasleep (show A.length ≤ s.created.length by omega)
  -- the cut leaves the ready queue alone
  set s₁ : Kernel := { s.setEos t 0 with task := task, sleepQueue := head } with hs₁
  have hready : IsList s₁.next s₁.readyQueue (l ++ [y]) := by
    refine Seg.congr h.ready fun x hx => ?_
    rw [← next_setEos s t 0]
    exact hsame x fun hA => hdis x hx (by simp [hA])
  have hlink : s₁.linkAtTail s₁.readyQueue t = some (s₁.setNext y t) :=
    linkAtTail_eq hready (show l.length ≤ s.created.length by omega) t
  refine ⟨(s₁.setNext y t).setNext t 0, ?_, ⟨?_, ?_, ?_, ?_⟩, ?_, ⟨rfl, rfl, rfl⟩, rfl, ?_⟩
  · simp only [wakeTask, hcut, Option.bind_some]
    rw [← hs₁, hlink, Option.map_some]
  · rw [next_setNext, next_setNext]
    have hyl : y ∉ l := (List.nodup_middle.mp hready.nodup).notMem ∘ by simp
    have hseg : Seg (Function.update s₁.next y t) s₁.readyQueue (l ++ [y]) t :=
      Seg.update_last hready hyl
    exact seg_concat.mpr ⟨Seg.update_of_notMem hseg htR, ht0, Function.update_self ..⟩
  · rw [next_setNext, next_setNext]
    refine Seg.update_of_notMem (Seg.update_of_notMem hlist ?_) htAB
    exact fun hm => hdis y (by simp) (by simp at hm ⊢; tauto)
  · refine (List.Perm.nodup_iff ?_).mpr hn
    rw [List.append_assoc, List.singleton_append]
    exact List.Perm.append_left _ List.perm_middle.symm
  · simp only [List.length_append, List.length_singleton]
    change _ ≤ s.created.length
    omega
  · rw [eos_setNext, eos_setNext]
    exact heos.trans (eos_setEos s t 0)
  · rw [next_setNext, Function.update_self]

/-- The loop of `timer_callback` passes over sleepers that have not expired. -/
lemma wakeLoop_skip {p p' : ℕ} {l : List ℕ} (h : Seg s.next p l p')
    (hl : ∀ t ∈ l, ¬ s.tick > s.eos t) (n : ℕ) :
    wakeLoop (l.length + n) s p = wakeLoop n s p' := by
  induction l generalizing p with
  | nil => rw [seg_nil.mp h, List.length_nil, Nat.zero_add]
  | cons x xs ih =>
      obtain ⟨rfl, hx, hrest⟩ := h
      rw [List.length_cons, Nat.succ_add, wakeLoop, if_neg hx, if_neg (hl p (by simp))]
      exact ih hrest fun t ht => hl t (by simp [ht])

/-- The loop leaves after the first expired sleeper: the moved node's `next` is null. -/
lemma wakeLoop_hit {p : ℕ} {s' : Kernel} (hp : p ≠ 0) (hexp : s.tick > s.eos p)
    (hwake : s.wakeTask p = some s') (hnext : s'.next p = 0) (n : ℕ) :
    wakeLoop (n + 1) s p = some s' := by
  rw [wakeLoop, if_neg hp, if_pos hexp, hwake, Option.bind_some, hnext]
  cases n <;> simp [wakeLoop]

/-- The loop over a queue in which nothing has expired changes nothing. -/
lemma wakeLoop_none {p n : ℕ} {l : List ℕ} (h : IsList s.next p l)
    (hl : ∀ t ∈ l, ¬ s.tick > s.eos t) (hn : l.length ≤ n) : wakeLoop n s p = some s := by
  obtain ⟨m, rfl⟩ := Nat.exists_eq_add_of_le hn
  rw [wakeLoop_skip h hl]
  cases m <;> simp [wakeLoop]

/-- The loop over a queue whose first expired sleeper is `t` moves that one. -/
lemma wakeLoop_first {p n : ℕ} {s' : Kernel} (h : IsList s.next p (A ++ t :: B))
    (hA : ∀ x ∈ A, ¬ s.tick > s.eos x) (hexp : s.tick > s.eos t)
    (hwake : s.wakeTask t = some s') (hnext : s'.next t = 0)
    (hn : (A ++ t :: B).length ≤ n) : wakeLoop n s p = some s' := by
  obtain ⟨hseg, ht0, _⟩ := isList_append_cons.mp h
  simp only [List.length_append, List.length_cons] at hn
  obtain ⟨m, rfl⟩ : ∃ m, n = A.length + (m + 1) := ⟨n - A.length - 1, by omega⟩
  rw [wakeLoop_skip hseg hA, wakeLoop_hit ht0 hexp hwake hnext]

/-! ### Switching -/

/-- The test of `switch_task` and `sleep` for a task that is alone in the ready queue. -/
lemma alone_iff (h : IsList s.next s.readyQueue (b ++ c :: a)) (hc : s.currentTask = c) :
    (s.currentTask = s.readyQueue ∧ s.next s.readyQueue = 0) ↔ a = [] ∧ b = [] := by
  obtain ⟨hseg, hc0, hrest⟩ := isList_append_cons.mp h
  constructor
  · rintro ⟨hhead, hnext⟩
    have hb : b = [] := by
      by_contra hb
      obtain ⟨z, zs, rfl⟩ := List.exists_cons_of_ne_nil hb
      have hz : s.readyQueue = z := h.1
      have hn := h.nodup
      rw [← hc, hhead, hz] at hn
      simp at hn
    subst hb
    obtain rfl : s.readyQueue = c := hseg
    refine ⟨?_, rfl⟩
    rw [hnext] at hrest
    exact hrest.unique (isList_nil.mpr rfl)
  · rintro ⟨rfl, rfl⟩
    obtain rfl : s.readyQueue = c := hseg
    exact ⟨hc, hrest⟩

/-- The task `switch_task` chooses: the next in the ready queue, or else its head. -/
lemma chooseNext_eq (h : IsList s.next s.readyQueue (b ++ c :: a)) (hc : s.currentTask = c)
    {x : ℕ} (hx : (a ++ b).head? = some x) : s.chooseNext.tmpCurrentTask = x := by
  obtain ⟨hseg, _, hrest⟩ := isList_append_cons.mp h
  simp only [chooseNext, hc]
  cases a with
  | cons z zs =>
      obtain rfl : z = x := by simpa using hx
      rw [hrest.1, if_neg hrest.2.1]
  | nil =>
      rw [if_pos (isList_nil.mp hrest)]
      cases b with
      | nil => simp at hx
      | cons z zs =>
          obtain rfl : z = x := by simpa using hx
          exact hseg.1

/-- **`switch_task` for a task that is not going to sleep**: the queues stay, the next task
in the ready queue runs. -/
lemma switchTask_awake (r : Regs) (h : s.Queues (b ++ c :: a) S) (hc : s.currentTask = c)
    (hc0 : s.eos c = 0) :
    ∃ s', s.switchTask r = some (s', (a ++ b).head?) ∧ s'.Queues (b ++ c :: a) S ∧
      s'.eos = s.eos ∧ SameGlobals s s' ∧ s'.currentTask = ((a ++ b).head?).getD c := by
  have hne : s.currentTask ≠ 0 := hc ▸ h.ready.ne_zero c (by simp)
  cases hx : (a ++ b).head? with
  | none =>
      have hab : a = [] ∧ b = [] := by simpa using hx
      refine ⟨s, ?_, h, rfl, ⟨rfl, rfl, rfl⟩, by simpa using hc⟩
      rw [switchTask, if_neg hne, if_pos ((alone_iff h.ready hc).mpr hab)]
  | some x =>
      have hab : ¬ (a = [] ∧ b = []) := by rintro ⟨rfl, rfl⟩; simp at hx
      set s₁ := (s.setRegs s.currentTask r).chooseNext with hs₁
      have hnext : s₁.next = s.next := next_setRegs s _ r
      have heos : s₁.eos = s.eos := eos_setRegs s _ r
      have htmp : s₁.tmpCurrentTask = x := by
        refine chooseNext_eq (s := s.setRegs s.currentTask r) ?_ hc hx
        rw [next_setRegs]; exact h.ready
      refine ⟨s₁.dispatch.1, ?_, ⟨?_, ?_, h.nodup, h.fits⟩, heos, ⟨rfl, rfl, rfl⟩, ?_⟩
      · rw [switchTask, if_neg hne, if_neg (mt (alone_iff h.ready hc).mp hab)]
        rw [if_neg (by rw [← hs₁, heos, not_not]; exact hc ▸ hc0)]
        rw [← hs₁, dispatch, htmp]
      · change IsList s₁.next s.readyQueue _
        rw [hnext]; exact h.ready
      · change IsList s₁.next s.sleepQueue _
        rw [hnext]; exact h.asleep
      · exact htmp

/-- **`switch_task` for a task on its way to sleep**: it is cut out of the ready queue, which
ends the sleep queue at it. -/
lemma switchTask_linked (r : Regs) (h : s.Linked b c a S) (hc : s.currentTask = c)
    (hc0 : s.eos c ≠ 0) {x : ℕ} (hx : (a ++ b).head? = some x) :
    ∃ s', s.switchTask r = some (s', some x) ∧ s'.Queues (b ++ a) (S ++ [c]) ∧
      s'.eos = s.eos ∧ SameGlobals s s' ∧ s'.currentTask = x := by
  have hn := h.nodup
  have hne : s.currentTask ≠ 0 := hc ▸ h.ready.ne_zero c (by simp)
  have hab : ¬ (a = [] ∧ b = []) := by rintro ⟨rfl, rfl⟩; simp at hx
  set s₁ := (s.setRegs s.currentTask r).chooseNext with hs₁
  have hnext : s₁.next = s.next := next_setRegs s _ r
  have heos : s₁.eos = s.eos := eos_setRegs s _ r
  have htmp : s₁.tmpCurrentTask = x := by
    refine chooseNext_eq (s := s.setRegs s.currentTask r) ?_ hc hx
    rw [next_setRegs]; exact h.ready
  have hready : IsList s₁.next s₁.readyQueue (b ++ c :: a) := by rw [hnext]; exact h.ready
  have hfit := h.fits
  simp only [List.length_append, List.length_cons] at hfit
  obtain ⟨task, head, hcut, hlist, hsame, heos'⟩ :=
    cut_spec hready (show b.length ≤ s.created.length by omega)
  set s₂ : Kernel := { s₁ with task := task, readyQueue := head } with hs₂
  have hc1 : s₁.currentTask = c := hc
  have hdis : c ∉ b ∧ c ∉ a ∧ c ∉ S ∧ (∀ x ∈ S, x ∉ b) := by
    simp only [List.append_assoc, List.cons_append, List.nodup_append, List.nodup_cons,
      List.mem_append, List.mem_cons, not_or] at hn
    exact ⟨fun hm => hn.2.2 c hm c (Or.inl rfl) rfl, hn.2.1.1.1, hn.2.1.1.2,
      fun x hx hb => hn.2.2 x hb x (Or.inr (Or.inr hx)) rfl⟩
  have hunlink : s₁.unlinkCurrent = some (s₂.setNext c 0) := by
    rw [unlinkCurrent, hc1, hcut, Option.map_some]
    exact congrArg (fun p => some (setNext s₂ p 0)) hc1
  refine ⟨(s₂.setNext c 0).dispatch.1, ?_, ⟨?_, ?_, ?_, ?_⟩, ?_, ⟨rfl, rfl, rfl⟩, htmp⟩
  · rw [switchTask, if_neg hne, if_neg (mt (alone_iff h.ready hc).mp hab)]
    rw [if_pos (by rw [← hs₁, heos]; exact hc ▸ hc0), ← hs₁, hunlink, Option.map_some]
    exact congrArg (fun y => some (_, some y)) htmp
  · change IsList (s₂.setNext c 0).next head (b ++ a)
    exact isList_setNext hlist (by simp [hdis.1, hdis.2.1]) 0
  · change IsList (s₂.setNext c 0).next s.sleepQueue (S ++ [c])
    obtain ⟨hseg, hcne, _⟩ := isList_append_cons.mp h.asleep
    rw [next_setNext]
    refine seg_concat.mpr ⟨Seg.update_of_notMem (Seg.congr hseg fun y hy => ?_) hdis.2.2.1,
      hcne, Function.update_self ..⟩
    exact (hsame y (hdis.2.2.2 y hy)).trans (congrFun hnext y)
  · refine (List.Perm.nodup_iff ?_).mpr hn
    rw [← List.append_assoc, List.append_assoc b (c :: a) S, List.cons_append]
    refine List.Perm.trans ?_ List.perm_middle.symm
    rw [← List.append_assoc]
    exact List.perm_append_singleton c _
  · simp only [List.length_append, List.length_singleton]
    change _ ≤ s.created.length
    omega
  · exact (eos_setNext s₂ c 0).trans (heos'.trans heos)

/-! ### Going to sleep -/

/-- The assignment `sleep_queue = current_task` into an empty sleep queue. -/
lemma linked_of_head (h : s.Queues (b ++ c :: a) []) :
    { s with sleepQueue := c }.Linked b c a [] := by
  obtain ⟨_, hc0, hrest⟩ := isList_append_cons.mp h.ready
  exact ⟨h.ready, ⟨rfl, hc0, hrest⟩, h.nodup, h.fits⟩

/-- The assignment `tmp_task->next = current_task` at the tail of the sleep queue. -/
lemma linked_of_tail {l : List ℕ} (h : s.Queues (b ++ c :: a) (l ++ [y])) :
    (s.setNext y c).Linked b c a (l ++ [y]) := by
  obtain ⟨_, hc0, hrest⟩ := isList_append_cons.mp h.ready
  have hy : y ∉ l ∧ y ∉ b ++ c :: a := by
    refine ⟨(List.nodup_middle.mp h.asleep.nodup).notMem ∘ by simp, fun hm => ?_⟩
    exact (List.nodup_append.mp h.nodup).2.2 y hm y (by simp) rfl
  refine ⟨isList_setNext h.ready hy.2 c, ?_, h.nodup, h.fits⟩
  rw [next_setNext]
  refine isList_append_cons.mpr ⟨Seg.update_last h.asleep hy.1, hc0, ?_⟩
  rw [Function.update_of_ne (by rintro rfl; exact hy.2 (by simp))]
  exact Seg.update_of_notMem hrest (fun hm => hy.2 (by simp [hm]))

/-- Linking the running task behind the sleepers leaves it in the ready queue. -/
lemma linkSleeper_linked (h : s.Queues (b ++ c :: a) S) (hc : s.currentTask = c) :
    ∃ s', s.linkSleeper = some s' ∧ s'.Linked b c a S ∧ s'.eos = s.eos ∧ SameGlobals s s' ∧
      s'.currentTask = c := by
  rcases List.eq_nil_or_concat S with rfl | ⟨l, y, rfl⟩
  · refine ⟨{ s with sleepQueue := c }, ?_, linked_of_head h, rfl, ⟨rfl, rfl, rfl⟩, hc⟩
    rw [linkSleeper, if_pos (isList_nil.mp h.asleep), hc]
  · rw [List.concat_eq_append] at *
    have hfit := h.fits
    simp only [List.length_append, List.length_cons, List.length_nil] at hfit
    have hne : s.sleepQueue ≠ 0 := by
      cases l with
      | nil => rw [show s.sleepQueue = y from h.asleep.1]; exact h.asleep.2.1
      | cons z zs => rw [show s.sleepQueue = z from h.asleep.1]; exact h.asleep.2.1
    refine ⟨s.setNext y c, ?_, linked_of_tail h, by simp, ⟨rfl, rfl, rfl⟩, hc⟩
    rw [linkSleeper, if_neg hne, hc]
    exact linkAtTail_eq h.asleep (by omega) c

end Kernel

end Matanos
