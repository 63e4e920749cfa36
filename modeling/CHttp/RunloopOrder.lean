import CHttp.Runloop

/-! Posted functions over whole runs of `runloop_run`: executed once each, in the order
of their posts, while handlers and posted functions go on posting. -/
namespace CHttp

/-- The counter of a table counts its entries. -/
def FdTable.Counts (this : FdTable) : Prop := this.count = this.entries.countP Option.isSome

theorem fdTableInit_counts : fdTableInit.Counts := by
  simp [FdTable.Counts, fdTableInit, List.countP_replicate]

theorem FdTable.Counts.insert {this : FdTable} (h : this.Counts) (wref : Watcher) (fd : ℕ)
    (hfree : this.entries[fd]? = some none) :
    FdTable.Counts ⟨this.count+1, this.entries.set fd (some wref)⟩ := by
  obtain ⟨hlt, hget⟩ := List.getElem?_eq_some_iff.mp hfree
  have hcount : this.count = this.entries.countP Option.isSome := h
  simp only [FdTable.Counts, List.countP_set hlt, hget, hcount, Option.isSome_none,
    Option.isSome_some, Bool.false_eq_true, if_false, if_true, Nat.sub_zero]

theorem FdTable.Counts.remove {this : FdTable} (h : this.Counts) (wref : Watcher) (fd : ℕ)
    (hentry : this.entries[fd]? = some (some wref)) :
    FdTable.Counts ⟨this.count-1, this.entries.set fd none⟩ := by
  obtain ⟨hlt, hget⟩ := List.getElem?_eq_some_iff.mp hentry
  have hcount : this.count = this.entries.countP Option.isSome := h
  simp only [FdTable.Counts, List.countP_set hlt, hget, hcount, Option.isSome_none,
    Option.isSome_some, Bool.false_eq_true, if_false, if_true, Nat.add_zero]

/-- A table that counts nothing has nothing registered. -/
theorem FdTable.Counts.empty {this : FdTable} (h : this.Counts) (hz : this.count = 0)
    (wref : Watcher) : ¬this.Registered wref := by
  intro hr
  have hnone : ∀ entry ∈ this.entries, ¬entry.isSome = true :=
    List.countP_eq_zero.mp ((show this.count = _ from h).symm.trans hz)
  have hmem : some wref ∈ this.entries := List.mem_of_getElem? hr
  exact hnone _ hmem rfl

/-- The list holds `pending`, which is what was posted and not yet executed. -/
structure RunloopWorld.Ordered (w : RunloopWorld) (pending : List Functor) : Prop where
  list : w.readyList.Holds runloopReadyListMax pending
  history : w.posted = w.executed ++ pending
  table : w.table.Counts
  waiting : w.control = .waiting → pending = []
  exited : ∀ result, w.control = .exited result true → pending = [] ∧ w.table.count = 0

section step

variable {w t : RunloopWorld} {pending : List Functor}

/-- A step that only moves control, and not to a place where the list must be empty. -/
theorem RunloopWorld.Ordered.move (h : w.Ordered pending) (hlist : t.readyList = w.readyList)
    (htable : t.table = w.table) (hposted : t.posted = w.posted)
    (hexecuted : t.executed = w.executed) (hwait : t.control ≠ .waiting)
    (hexit : ∀ result, t.control ≠ .exited result true) : t.Ordered pending where
  list := by rw [hlist]; exact h.list
  history := by rw [hposted, hexecuted]; exact h.history
  table := by rw [htable]; exact h.table
  waiting hc := absurd hc hwait
  exited result hc := absurd hc (hexit result)

/-- Application code can be running neither while `epoll_wait` blocks nor after the exit. -/
theorem RunloopControl.isUser_ne {c : RunloopControl} (h : c.isUser = true) :
    c ≠ .waiting ∧ ∀ result clean, c ≠ .exited result clean := by
  cases c with
  | before | handling | executing => exact ⟨nofun, nofun⟩
  | top | waiting | batch | draining | exited => cases h

theorem size_eq_zero_iff (h : w.Ordered pending) :
    functorListSize w.readyList = 0 ↔ pending = [] := by
  rw [functorListSize_eq h.list, List.length_eq_zero_iff]

/-- Fewer than 2047 pending functions leave a place in a list of 2048. -/
theorem RunloopWorld.Ordered.room (h : w.Ordered pending)
    (hroom : functorListSize w.readyList < 2047) : pending.length+1 < runloopReadyListMax := by
  have hmax : runloopReadyListMax = 2048 := rfl
  rw [functorListSize_eq h.list] at hroom
  omega

/-- One step keeps the order, with the pending functions it leaves. -/
theorem runloop_ordered_step (h : w.Ordered pending) (e : RunloopEvent) (hs : RunloopStep w e t) :
    ∃ pending', t.Ordered pending' := by
  cases hs with
  | post func readyList hu hroom hadd =>
    obtain ⟨readyList', hadd', hholds⟩ := functorListAdd_holds h.list (h.room hroom) func
    obtain rfl := Except.ok.inj (hadd.symm.trans hadd')
    have hne := RunloopControl.isUser_ne hu
    refine ⟨pending ++ [func], hholds, ?_, h.table, fun hc => absurd hc hne.1,
      fun result hc => absurd hc (hne.2 result true)⟩
    show w.posted ++ [func] = w.executed ++ (pending ++ [func])
    rw [h.history, List.append_assoc]
  | register wref hu hfree =>
    have hne := RunloopControl.isUser_ne hu
    exact ⟨pending, h.list, h.history, h.table.insert wref _ hfree, fun hc => absurd hc hne.1,
      fun result hc => absurd hc (hne.2 result true)⟩
  | deregister wref hu hr =>
    have hne := RunloopControl.isUser_ne hu
    exact ⟨pending, h.list, h.history, h.table.remove wref _ hr, fun hc => absurd hc hne.1,
      fun result hc => absurd hc (hne.2 result true)⟩
  | close hu =>
    have hne := RunloopControl.isUser_ne hu
    exact ⟨pending, h.move rfl rfl rfl rfl hne.1 fun result => hne.2 result true⟩
  | run hc => exact ⟨pending, h.move rfl rfl rfl rfl (by simp) (by simp)⟩
  | exit hc ht hl =>
    have hempty : pending = [] := (size_eq_zero_iff h).mp hl
    exact ⟨pending, h.list, h.history, h.table, by simp, fun _ _ => ⟨hempty, ht⟩⟩
  | wait hc hl =>
    have hempty : pending = [] := (size_eq_zero_iff h).mp hl
    exact ⟨pending, h.list, h.history, h.table, fun _ => hempty, by simp⟩
  | drain hc => exact ⟨pending, h.move rfl rfl rfl rfl (by simp) (by simp)⟩
  | epollStops r result hc => exact ⟨pending, h.move rfl rfl rfl rfl (by simp) (by simp)⟩
  | epollEvents evs hc hne hnd hr => exact ⟨pending, h.move rfl rfl rfl rfl (by simp) (by simp)⟩
  | batchDone hc => exact ⟨pending, h.move rfl rfl rfl rfl (by simp) (by simp)⟩
  | dispatch wref rest hc hr => exact ⟨pending, h.move rfl rfl rfl rfl (by simp) (by simp)⟩
  | handled wref rest hc => exact ⟨pending, h.move rfl rfl rfl rfl (by simp) (by simp)⟩
  | drained hc => exact ⟨pending, h.move rfl rfl rfl rfl (by simp) (by simp)⟩
  | execute func readyList hc hremove =>
    cases pending with
    | nil =>
      have hsize : functorListSize w.readyList = 0 := (size_eq_zero_iff h).mpr rfl
      simp [functorListRemove, hsize] at hremove
    | cons first rest =>
      obtain ⟨readyList', hremove', hholds⟩ := functorListRemove_holds h.list
      obtain ⟨rfl, rfl⟩ := Prod.mk.inj (Except.ok.inj (hremove.symm.trans hremove'))
      refine ⟨rest, hholds, ?_, h.table, by simp, by simp⟩
      show w.posted = w.executed ++ [func] ++ rest
      rw [h.history, List.append_assoc, List.singleton_append]
  | executedLast hc => exact ⟨pending, h.move rfl rfl rfl rfl (by simp) (by simp)⟩
  | executedMore hc => exact ⟨pending, h.move rfl rfl rfl rfl (by simp) (by simp)⟩

/-- The list never refuses a post or an execution. -/
theorem RunloopWorld.Ordered.adds (h : w.Ordered pending) (func : Functor)
    (he : w.Enabled (.post func)) : ∃ t, w.exec (.post func) = .ok t := by
  obtain ⟨-, hroom, hf, ha⟩ := he
  obtain ⟨readyList, hadd, -⟩ := functorListAdd_holds h.list (h.room hroom) func
  exact ⟨_, by simp only [RunloopWorld.exec, runloopPost, hf, ha, cAssert_true, ok_bind, hadd]; rfl⟩

theorem RunloopWorld.Ordered.removes (h : w.Ordered pending) (hc : w.control = .draining) :
    ∃ t, w.exec .step = .ok t := by
  cases pending with
  | nil =>
    have hsize : functorListSize w.readyList = 0 := (size_eq_zero_iff h).mpr rfl
    exact ⟨_, by simp only [RunloopWorld.exec, hc, hsize, if_true]; rfl⟩
  | cons first rest =>
    have hsize : functorListSize w.readyList ≠ 0 :=
      fun hz => List.cons_ne_nil first rest ((size_eq_zero_iff h).mp hz)
    obtain ⟨readyList, hremove, -⟩ := functorListRemove_holds h.list
    exact ⟨_, by simp only [RunloopWorld.exec, hc, hsize, if_false, hremove, ok_bind]; rfl⟩

/-- The only step that can fault is the dispatch of an event whose watcher is not registered any
more. -/
theorem RunloopWorld.Ordered.goes (h : w.Ordered pending) {e : RunloopEvent} (he : w.Enabled e)
    (hnext : e = .step → ∀ wref rest, w.control = .batch (wref :: rest) → w.table.Registered wref) :
    ∃ t, w.exec e = .ok t := by
  cases e with
  | post func => exact h.adds func he
  | register wref => exact ⟨_, by rw [RunloopWorld.exec, runloopRegister_ok _ _ he.2, ok_bind]⟩
  | deregister wref => exact ⟨_, by rw [RunloopWorld.exec, runloopDeregister_ok _ _ he.2, ok_bind]⟩
  | close => exact ⟨_, rfl⟩
  | run =>
    have hc : w.control = .before := he
    exact ⟨_, by simp only [RunloopWorld.exec, hc]; rfl⟩
  | step =>
    rcases he with hc | hc | ⟨evs, hc⟩
    · simp only [RunloopWorld.exec, hc]
      split_ifs
      · exact ⟨_, rfl⟩
      · exact ⟨_, rfl⟩
      · exact ⟨_, rfl⟩
    · exact h.removes hc
    · cases evs with
      | nil => exact ⟨_, by simp only [RunloopWorld.exec, hc]; rfl⟩
      | cons wref rest =>
        have hlookup := (fdTableLookup_eq_ok _ _ _).mpr (hnext rfl wref rest hc)
        exact ⟨_, by simp only [RunloopWorld.exec, hc, hlookup, ok_bind, decide_true, cAssert_true]; rfl⟩
  | epollReturns r =>
    have hc : w.control = .waiting := by
      cases r with
      | events evs => exact he.1
      | interrupted | failed | none => exact he
    cases r with
    | events | interrupted | failed | none => exact ⟨_, by simp only [RunloopWorld.exec, hc]; rfl⟩
  | ret =>
    rcases he with hc | ⟨wref, rest, hc⟩
    · simp only [RunloopWorld.exec, hc]
      split_ifs
      · exact ⟨_, rfl⟩
      · exact ⟨_, rfl⟩
    · exact ⟨_, by simp only [RunloopWorld.exec, hc]; rfl⟩

end step

/-- Every function is executed once and in the order of the posts: what is pending is
what was posted and not executed, the list never refuses, the loop waits only with
nothing pending, and leaves cleanly only with nothing pending and nothing registered. -/
structure RunloopWorld.InOrder (w : RunloopWorld) : Prop where
  adds : ∀ func, w.Enabled (.post func) → ∃ t, w.exec (.post func) = .ok t
  removes : w.control = .draining → ∃ t, w.exec .step = .ok t
  executed_prefix : w.executed <+: w.posted
  pending : ∃ pending, w.readyList.Holds runloopReadyListMax pending ∧
    w.posted = w.executed ++ pending
  waits : w.control = .waiting → functorListSize w.readyList = 0
  exits : ∀ result, w.control = .exited result true →
    functorListSize w.readyList = 0 ∧ ∀ wref, ¬w.table.Registered wref

theorem runloop_in_order (start : RunloopWorld) (hinit : runloopInit = .ok start)
    (es : List RunloopEvent) (w : RunloopWorld) (h : runloopMachine.Run start es w) :
    w.InOrder := by
  obtain ⟨readyList, hnew, hholds⟩ :=
    functorListNew_holds (α := Functor) runloopReadyListMax (by decide) le_rfl
  simp only [runloopInit, hnew, ok_bind] at hinit
  obtain rfl := Except.ok.inj hinit
  have hstart : RunloopWorld.Ordered ⟨fdTableInit, readyList, false, .before, [], [], []⟩ [] :=
    ⟨hholds, rfl, fdTableInit_counts, nofun, nofun⟩
  obtain ⟨pending, hw⟩ : ∃ pending, w.Ordered pending := by
    refine h.keeps (I := fun w => ∃ pending, w.Ordered pending) ?_ ⟨[], hstart⟩
    rintro u e v ⟨pending, hu⟩ he hx
    exact runloop_ordered_step hu e (runloop_step u v e he hx)
  refine ⟨hw.adds, hw.removes, ⟨pending, hw.history.symm⟩, ⟨pending, hw.list, hw.history⟩, ?_, ?_⟩
  · intro hc
    exact (size_eq_zero_iff hw).mpr (hw.waiting hc)
  · intro result hc
    have hexit := hw.exited result hc
    exact ⟨(size_eq_zero_iff hw).mpr hexit.1, hw.table.empty hexit.2⟩

/-- A function posts another while it runs; both are executed before the clean exit. -/
theorem runloop_in_order_twice :
    ∃ start w, runloopInit = .ok start ∧
      runloopMachine.Run start [.post ⟨some 1, some 1⟩, .run, .step, .step, .post ⟨some 2, some 2⟩,
        .ret, .step, .ret, .step] w ∧
      (w.executed = [⟨some 1, some 1⟩, ⟨some 2, some 2⟩] ∧ w.control = .exited 0 true) ∧
      w.InOrder := by
  have hrun : ∃ w, runloopMachine.Run ⟨fdTableInit, ⟨2048, 0, 0, List.replicate 2049 none⟩, false,
      .before, [], [], []⟩ [.post ⟨some 1, some 1⟩, .run, .step, .step, .post ⟨some 2, some 2⟩,
        .ret, .step, .ret, .step] w ∧
      (w.executed = [⟨some 1, some 1⟩, ⟨some 2, some 2⟩] ∧ w.control = .exited 0 true) :=
    Machine.exists_run_of_replay _ (by decide +kernel)
  obtain ⟨w, hrun, hend⟩ := hrun
  exact ⟨_, w, rfl, hrun, hend, runloop_in_order _ rfl _ w hrun⟩

end CHttp
