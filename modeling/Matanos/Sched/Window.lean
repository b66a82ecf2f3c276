import Matanos.Sched.Queues

/-!
A timer tick in the window of `sleep` in which the running task is in both queues.

In a `Linked` state the walk of `timer_callback` over the sleep queue runs on into the ready
queue behind the running task `c`, whose tasks all look expired. What it then does depends on
the first expired task it meets:

* `wakeTask_linked_sleeper`: a sleeper before `c` moves behind the ready queue, and the window
  stays as it was;
* `wakeTask_linked_ready`: with no expired task up to `c`, the ready task behind `c` moves to
  the end of the ready queue;
* `wakeTask_linked_self`: `c` itself, when it is the last ready task, leaves the sleep queue
  and the window is closed.

`wakeLoop_linked` puts these together. The remaining case,
`c` expired with ready tasks behind it, is the one in which the queues run into each other.
-/

namespace Matanos

namespace Kernel

open Lib

variable {s : Kernel} {A B a b S : List ℕ} {c t : ℕ}

/-- The disjointness in a `Linked` state, one statement for each pair of its parts. -/
lemma Linked.disjoint (h : s.Linked b c a S) :
    c ∉ b ∧ c ∉ a ∧ c ∉ S ∧ (∀ x ∈ b, x ∉ a) ∧ (∀ x ∈ S, x ∉ b) ∧ (∀ x ∈ S, x ∉ a) := by
  have hn := h.nodup
  simp only [List.append_assoc, List.cons_append, List.nodup_append, List.nodup_cons,
    List.mem_append, List.mem_cons, not_or] at hn
  exact ⟨fun hm => hn.2.2 c hm c (Or.inl rfl) rfl, hn.2.1.1.1, hn.2.1.1.2,
    fun x hb ha => hn.2.2 x hb x (Or.inr (Or.inl ha)) rfl,
    fun x hS hb => hn.2.2 x hb x (Or.inr (Or.inr hS)) rfl,
    fun x hS ha => hn.2.1.2.2.2 x ha x hS rfl⟩

lemma nodup_concat_last {l : List ℕ} {y : ℕ} (h : (l ++ [y]).Nodup) : y ∉ l := by
  simp only [List.nodup_append, List.mem_singleton] at h
  exact fun hm => h.2.2 y hm y rfl rfl

/-- The last task of a nonempty end of a list. -/
lemma exists_append_last (b : List ℕ) (c : ℕ) (a : List ℕ) :
    ∃ l y, b ++ c :: a = l ++ [y] ∧ (y = c ∨ y ∈ a) :=
  ⟨(b ++ c :: a).dropLast, (b ++ c :: a).getLast (by simp),
    (List.dropLast_append_getLast _).symm, by
      rw [List.getLast_append_of_ne_nil _ (by simp)]
      exact List.mem_cons.mp (List.getLast_mem _)⟩

/-- Moving a task behind the ready queue of a `Linked` state, once it has been cut out. -/
lemma linked_append (h : s.Linked b c a S) (ht : t ∉ b ++ c :: a ++ S) (ht0 : t ≠ 0)
    (hroom : (b ++ c :: a ++ S).length < s.created.length) :
    ∃ y, s.linkAtTail s.readyQueue t = some (s.setNext y t) ∧
      ((s.setNext y t).setNext t 0).Linked b c (a ++ [t]) S ∧
      ((s.setNext y t).setNext t 0).next t = 0 := by
  obtain ⟨l, y, hly, hy⟩ := exists_append_last b c a
  obtain ⟨hcb, hca, hcS, hba, hSb, hSa⟩ := h.disjoint
  simp only [List.mem_append, List.mem_cons, not_or] at ht
  have hready := h.ready
  rw [hly] at hready
  have hyl : y ∉ l := nodup_concat_last hready.nodup
  have htl : t ∉ l ++ [y] := by rw [← hly]; simp [ht]
  have hlen := congrArg List.length hly
  simp only [List.length_append, List.length_cons, List.length_nil] at hlen hroom
  -- the ready queue from the running task on, which the sleep queue shares
  obtain ⟨hsegb, hc0, _⟩ := isList_append_cons.mp h.ready
  obtain ⟨hsegS, _, _⟩ := isList_append_cons.mp h.asleep
  have hyb : y ∉ b ∧ y ∉ S := by
    rcases hy with rfl | hy
    · exact ⟨hcb, hcS⟩
    · exact ⟨fun hm => hba y hm hy, fun hm => hSa y hm hy⟩
  have hR : IsList ((s.setNext y t).setNext t 0).next s.readyQueue (b ++ c :: (a ++ [t])) := by
    have hseg : Seg (Function.update s.next y t) s.readyQueue (l ++ [y]) t :=
      Seg.update_last hready hyl
    rw [← List.cons_append, ← List.append_assoc, hly, next_setNext, next_setNext]
    exact seg_concat.mpr ⟨Seg.update_of_notMem hseg htl, ht0, Function.update_self ..⟩
  refine ⟨y, linkAtTail_eq hready (by omega) t, ⟨hR, ?_, ?_, ?_⟩, ?_⟩
  · refine isList_append_cons.mpr ⟨?_, (isList_append_cons.mp hR).2⟩
    rw [next_setNext, next_setNext]
    exact Seg.update_of_notMem (Seg.update_of_notMem hsegS hyb.2) ht.2
  · have hn : (t :: (b ++ c :: a ++ S)).Nodup := List.nodup_cons.mpr ⟨by simp [ht], h.nodup⟩
    refine (List.Perm.nodup_iff ?_).mpr hn
    rw [← List.cons_append, ← List.append_assoc, List.append_assoc _ [t] S]
    exact List.perm_middle
  · simp only [List.length_append, List.length_cons, List.length_nil]
    change _ ≤ s.created.length
    omega
  · rw [next_setNext, Function.update_self]

/-- A sleeper before the running task wakes: it moves behind the ready queue, and the running
task stays linked. -/
lemma wakeTask_linked_sleeper (h : s.Linked b c a (A ++ t :: B)) :
    ∃ s', s.wakeTask t = some s' ∧ s'.Linked b c (a ++ [t]) (A ++ B) ∧
      s'.eos = Function.update s.eos t 0 ∧ SameGlobals s s' ∧
      s'.currentTask = s.currentTask ∧ s'.next t = 0 := by
  obtain ⟨hcb, hca, hcS, hba, hSb, hSa⟩ := h.disjoint
  have hfit := h.fits
  simp only [List.length_append, List.length_cons] at hfit
  have hchain : IsList (s.setEos t 0).next (s.setEos t 0).sleepQueue
      (A ++ t :: (B ++ c :: a)) := by
    rw [next_setEos]
    have := h.asleep
    rwa [List.append_assoc, List.cons_append] at this
  have ht0 : t ≠ 0 := hchain.ne_zero t (by simp)
  obtain ⟨task, head, hcut, hlist, hsame, heos⟩ :=
    cut_spec hchain (show A.length ≤ s.created.length by omega)
  set s₁ : Kernel := { s.setEos t 0 with task := task, sleepQueue := head } with hs₁
  have hready : IsList s₁.next s₁.readyQueue (b ++ c :: a) := by
    refine Seg.congr h.ready fun x hx => ?_
    rw [← next_setEos s t 0]
    refine hsame x fun hA => ?_
    have hxS : x ∈ A ++ t :: B := by simp [hA]
    rcases List.mem_append.mp hx with hx | hx
    · exact hSb x hxS hx
    · rcases List.mem_cons.mp hx with rfl | hx
      · exact hcS hxS
      · exact hSa x hxS hx
  have hperm : (b ++ c :: a ++ (A ++ t :: B)).Perm (t :: (b ++ c :: a ++ (A ++ B))) := by
    rw [← List.append_assoc, ← List.append_assoc]
    exact List.perm_middle
  have hnt : t ∉ b ++ c :: a ++ (A ++ B) ∧ (b ++ c :: a ++ (A ++ B)).Nodup :=
    List.nodup_cons.mp (hperm.nodup_iff.mp h.nodup)
  have hlinked : s₁.Linked b c a (A ++ B) := by
    refine ⟨hready, ?_, hnt.2, ?_⟩
    · rw [List.append_assoc]; exact hlist
    · change _ ≤ s.created.length
      simp only [List.length_append, List.length_cons]
      omega
  obtain ⟨y, hlink, hlinked', hnext⟩ := linked_append hlinked hnt.1 ht0 (by
    change _ < s.created.length
    simp only [List.length_append, List.length_cons]
    omega)
  refine ⟨_, ?_, hlinked', ?_, ⟨rfl, rfl, rfl⟩, rfl, hnext⟩
  · simp only [wakeTask, hcut, Option.bind_some]
    rw [← hs₁, hlink, Option.map_some]
  · rw [eos_setNext, eos_setNext]
    exact heos.trans (eos_setEos s t 0)

/-- The ready task behind the running one is taken for a sleeper: it moves to the end of the
ready queue, and the running task stays linked. -/
lemma wakeTask_linked_ready (h : s.Linked b c (t :: a) S) :
    ∃ s', s.wakeTask t = some s' ∧ s'.Linked b c (a ++ [t]) S ∧
      s'.eos = Function.update s.eos t 0 ∧ SameGlobals s s' ∧
      s'.currentTask = s.currentTask ∧ s'.next t = 0 := by
  obtain ⟨hcb, hca, hcS, hba, hSb, hSa⟩ := h.disjoint
  have hfit := h.fits
  simp only [List.length_append, List.length_cons] at hfit
  have hchain : IsList (s.setEos t 0).next (s.setEos t 0).sleepQueue (S ++ [c] ++ t :: a) := by
    rw [next_setEos]
    have := h.asleep
    rwa [← List.singleton_append, ← List.append_assoc] at this
  have ht0 : t ≠ 0 := hchain.ne_zero t (by simp)
  obtain ⟨task, head, hcut, hlist, hsame, heos⟩ := cut_spec hchain (by
    change _ ≤ s.created.length
    simp only [List.length_append, List.length_cons, List.length_nil]
    omega)
  set s₁ : Kernel := { s.setEos t 0 with task := task, sleepQueue := head } with hs₁
  have hsame' : ∀ x ∉ S ++ [c], s₁.next x = s.next x := fun x hx => by
    rw [← next_setEos s t 0]; exact hsame x hx
  -- the cut goes through the running task, so it cuts the ready queue too
  have hrest : IsList s₁.next (s₁.next c) a := by
    have hl : IsList s₁.next s₁.sleepQueue (S ++ c :: a) := by
      have := hlist
      rwa [List.append_assoc, List.singleton_append] at this
    exact (isList_append_cons.mp hl).2.2
  have hready : IsList s₁.next s₁.readyQueue (b ++ c :: a) := by
    obtain ⟨hseg, hc0, _⟩ := isList_append_cons.mp h.ready
    refine isList_append_cons.mpr ⟨Seg.congr hseg fun x hx => hsame' x ?_, hc0, hrest⟩
    simp only [List.mem_append, List.mem_singleton, not_or]
    exact ⟨fun hS => hSb x hS hx, fun he => hcb (he ▸ hx)⟩
  have hperm : (b ++ c :: (t :: a) ++ S).Perm (t :: (b ++ c :: a ++ S)) := by
    classical
    rw [List.perm_iff_count]
    intro z
    simp only [List.count_append, List.count_cons]
    omega
  have hnt : t ∉ b ++ c :: a ++ S ∧ (b ++ c :: a ++ S).Nodup :=
    List.nodup_cons.mp (hperm.nodup_iff.mp h.nodup)
  have hlinked : s₁.Linked b c a S := by
    refine ⟨hready, ?_, hnt.2, ?_⟩
    · have := hlist
      rwa [List.append_assoc, List.singleton_append] at this
    · change _ ≤ s.created.length
      simp only [List.length_append, List.length_cons]
      omega
  obtain ⟨y, hlink, hlinked', hnext⟩ := linked_append hlinked hnt.1 ht0 (by
    change _ < s.created.length
    simp only [List.length_append, List.length_cons]
    omega)
  refine ⟨_, ?_, hlinked', ?_, ⟨rfl, rfl, rfl⟩, rfl, hnext⟩
  · simp only [wakeTask, hcut, Option.bind_some]
    rw [← hs₁, hlink, Option.map_some]
  · rw [eos_setNext, eos_setNext]
    exact heos.trans (eos_setEos s t 0)

/-- The running task itself wakes while it is the last ready task: the window is closed. -/
lemma wakeTask_linked_self (h : s.Linked b c [] S) :
    ∃ s', s.wakeTask c = some s' ∧ s'.Queues (b ++ [c]) S ∧
      s'.eos = Function.update s.eos c 0 ∧ SameGlobals s s' ∧
      s'.currentTask = s.currentTask ∧ s'.next c = 0 := by
  obtain ⟨hcb, _, hcS, _, hSb, _⟩ := h.disjoint
  have hfit := h.fits
  simp only [List.length_append, List.length_cons, List.length_nil] at hfit
  have hchain : IsList (s.setEos c 0).next (s.setEos c 0).sleepQueue (S ++ [c]) := by
    rw [next_setEos]; exact h.asleep
  obtain ⟨task, head, hcut, hlist, hsame, heos⟩ :=
    cut_spec hchain (show S.length ≤ s.created.length by omega)
  set s₁ : Kernel := { s.setEos c 0 with task := task, sleepQueue := head } with hs₁
  have hready : IsList s₁.next s₁.readyQueue (b ++ [c]) := by
    refine Seg.congr h.ready fun x hx => ?_
    rw [← next_setEos s c 0]
    refine hsame x fun hS => ?_
    rcases List.mem_append.mp hx with hx | hx
    · exact hSb x hS hx
    · obtain rfl : x = c := by simpa using hx
      exact hcS hS
  have hlink : s₁.linkAtTail s₁.readyQueue c = some (s₁.setNext c c) :=
    linkAtTail_eq hready (show b.length ≤ s.created.length by omega) c
  obtain ⟨hseg, hc0, _⟩ := seg_concat.mp hready
  refine ⟨(s₁.setNext c c).setNext c 0, ?_, ⟨?_, ?_, h.nodup, h.fits⟩, ?_, ⟨rfl, rfl, rfl⟩, rfl, ?_⟩
  · simp only [wakeTask, hcut, Option.bind_some]
    rw [← hs₁, hlink, Option.map_some]
  · rw [next_setNext, next_setNext]
    exact seg_concat.mpr ⟨Seg.update_of_notMem (Seg.update_of_notMem hseg hcb) hcb, hc0,
      Function.update_self ..⟩
  · rw [next_setNext, next_setNext]
    rw [List.append_nil] at hlist
    exact Seg.update_of_notMem (Seg.update_of_notMem hlist hcS) hcS
  · rw [eos_setNext, eos_setNext]
    exact heos.trans (eos_setEos s c 0)
  · rw [next_setNext, Function.update_self]

/-! ### The whole tick -/

/-- The sleep fields: null on the ready tasks `R`, set on the sleepers `S`. -/
structure Fields (s : Kernel) (R S : List ℕ) : Prop where
  awake : ∀ t ∈ R, s.eos t = 0
  asleep : ∀ t ∈ S, s.eos t ≠ 0

/-- What the loop of `timer_callback` leaves of the window: it is still open, around the same
running task, or it was closed by the running task's own deadline. -/
lemma wakeLoop_linked (h : s.Linked b c a S) (hf : s.Fields (b ++ a) S) (hc : s.eos c ≠ 0)
    (hsafe : s.tick > s.eos c → (∀ t ∈ S, ¬ s.tick > s.eos t) → a = []) :
    ∃ s', wakeLoop s.created.length s s.sleepQueue = some s' ∧ SameGlobals s s' ∧
      s'.currentTask = s.currentTask ∧
      ((∃ a' S', s'.Linked b c a' S' ∧ (b ++ c :: a' ++ S').Perm (b ++ c :: a ++ S) ∧
          s'.Fields (b ++ a') S' ∧ s'.eos c ≠ 0) ∨
        (s'.Queues (b ++ c :: a) S ∧ s'.Fields (b ++ c :: a) S)) := by
  obtain ⟨hcb, hca, hcS, hba, hSb, hSa⟩ := h.disjoint
  have hfit := h.fits
  simp only [List.length_append, List.length_cons] at hfit
  by_cases hS : ∀ t ∈ S, ¬ s.tick > s.eos t
  swap
  · -- a sleeper before the running task has expired
    obtain ⟨t, ht⟩ : ∃ t, S.find? (fun t => s.eos t < s.tick) = some t := by
      rw [← Option.isSome_iff_exists, List.find?_isSome]
      push Not at hS
      obtain ⟨t, ht, hexp⟩ := hS
      exact ⟨t, ht, by simpa using hexp⟩
    obtain ⟨hexp, A, B, rfl, hA⟩ := List.find?_eq_some_iff_append.mp ht
    obtain ⟨s', hs', hl, heos, hglob, hcur, hnext⟩ := wakeTask_linked_sleeper h
    have hchain := h.asleep
    rw [List.append_assoc, List.cons_append] at hchain
    refine ⟨s', wakeLoop_first hchain (by simpa using hA) (by simpa using hexp) hs' hnext ?_,
      hglob, hcur, Or.inl ⟨a ++ [t], A ++ B, hl, ?_, ⟨?_, ?_⟩, ?_⟩⟩
    · simp only [List.length_append, List.length_cons] at hfit ⊢
      omega
    · classical
      rw [List.perm_iff_count]
      intro z
      simp only [List.count_append, List.count_cons, List.count_nil]
      omega
    · intro u hu
      rw [heos]
      by_cases hut : u = t
      · rw [hut, Function.update_self]
      · rw [Function.update_of_ne hut]
        exact hf.awake u (by simp [hut] at hu ⊢; tauto)
    · intro u hu
      have hut : u ≠ t := by
        rintro rfl
        have hn := h.nodup
        have hSn : (A ++ u :: B).Nodup := (List.nodup_append.mp hn).2.1
        exact (List.nodup_middle.mp hSn).notMem hu
      rw [heos, Function.update_of_ne hut]
      exact hf.asleep u (by simp at hu ⊢; tauto)
    · rw [heos, Function.update_of_ne (by rintro rfl; exact hcS (by simp))]
      exact hc
  · by_cases hexp : s.tick > s.eos c
    · -- the running task itself has expired, and is the last ready task
      obtain rfl := hsafe hexp hS
      obtain ⟨s', hs', hq, heos, hglob, hcur, hnext⟩ := wakeTask_linked_self h
      refine ⟨s', wakeLoop_first h.asleep hS hexp hs' hnext ?_, hglob, hcur,
        Or.inr ⟨hq, ⟨?_, ?_⟩⟩⟩
      · simp only [List.length_append, List.length_cons] at hfit ⊢
        omega
      · intro u hu
        rw [heos]
        by_cases huc : u = c
        · rw [huc, Function.update_self]
        · rw [Function.update_of_ne huc]
          exact hf.awake u (by simpa [huc] using hu)
      · intro u hu
        rw [heos, Function.update_of_ne (by rintro rfl; exact hcS hu)]
        exact hf.asleep u hu
    · rcases a with _ | ⟨t, a⟩
      · -- nothing has expired
        refine ⟨s, wakeLoop_none h.asleep ?_ ?_, ⟨rfl, rfl, rfl⟩, rfl,
          Or.inl ⟨[], S, h, List.Perm.refl _, hf, hc⟩⟩
        · intro u hu
          rcases List.mem_append.mp hu with hu | hu
          · exact hS u hu
          · obtain rfl : u = c := by simpa using hu
            exact hexp
        · simp only [List.length_append, List.length_cons] at hfit ⊢
          omega
      · by_cases htick : s.tick > 0
        · -- the walk takes the ready task behind the running one for a sleeper
          have ht0 : s.eos t = 0 := hf.awake t (by simp)
          obtain ⟨s', hs', hl, heos, hglob, hcur, hnext⟩ := wakeTask_linked_ready h
          have hsame : s'.eos = s.eos := by
            rw [heos, ← ht0]; exact Function.update_eq_self t s.eos
          have hchain := h.asleep
          rw [← List.singleton_append, ← List.append_assoc] at hchain
          refine ⟨s', wakeLoop_first hchain ?_ (by rw [ht0]; exact htick) hs' hnext ?_,
            hglob, hcur, Or.inl ⟨a ++ [t], S, hl, ?_, ⟨?_, ?_⟩, ?_⟩⟩
          · intro u hu
            rcases List.mem_append.mp hu with hu | hu
            · exact hS u hu
            · obtain rfl : u = c := by simpa using hu
              exact hexp
          · simp only [List.length_append, List.length_cons, List.length_nil] at hfit ⊢
            omega
          · classical
            rw [List.perm_iff_count]
            intro z
            simp only [List.count_append, List.count_cons, List.count_nil]
            omega
          · intro u hu
            rw [hsame]
            exact hf.awake u (by simp at hu ⊢; tauto)
          · intro u hu
            rw [hsame]; exact hf.asleep u hu
          · rw [hsame]; exact hc
        · -- the tick counter has just wrapped to zero, and nothing counts as expired
          refine ⟨s, wakeLoop_none h.asleep ?_ ?_, ⟨rfl, rfl, rfl⟩, rfl,
            Or.inl ⟨t :: a, S, h, List.Perm.refl _, hf, hc⟩⟩
          · intro u _
            omega
          · simp only [List.length_append, List.length_cons] at hfit ⊢
            omega

end Kernel

end Matanos
