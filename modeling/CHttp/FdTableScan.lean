import CHttp.Runloop

/-! Enumerating the descriptors of an `FdTable`, as `runloop_close` does it. -/
namespace CHttp

def FdTable.present (this : FdTable) (fd : ℕ) : Bool := (this.entries.getD fd none).isSome

/-- The loop that `FdTable_iterator` and `FdTable_next_iterator` share, from `i` on for the
`n` entries that are left. -/
def fdTableScan (this : FdTable) : ℕ → ℕ → ℤ
  | _, 0 => -1
  | i, n+1 => if this.present i then i else fdTableScan this (i+1) n

def fdTableIterator (this : FdTable) : ℤ := fdTableScan this 0 runloopFdTableMax

def fdTableNextIterator (this : FdTable) (iter : ℤ) : Res ℤ := do
  cAssert (iter+1 < runloopFdTableMax) "iter+1 < runloop_FDTABLE_MAX"
  .ok (fdTableScan this (iter+1).toNat (runloopFdTableMax-(iter+1).toNat))

/-- At most `n` turns of the loop of `runloop_close`: the descriptors closed, and the one it
stopped with. -/
def runloopCloseLoop (table : FdTable) : ℕ → ℤ → List ℤ → Res (List ℤ × ℤ)
  | 0, nextFd, closed => .ok (closed, nextFd)
  | n+1, nextFd, closed =>
    if nextFd = -1 then .ok (closed, nextFd)
    else do
      let closed := closed ++ [nextFd]
      let nextFd ← fdTableNextIterator table nextFd
      runloopCloseLoop table n nextFd closed

/-- What `runloop_close` does with the table. -/
def runloopClose (table : FdTable) : Res (List ℤ × ℤ) :=
  runloopCloseLoop table runloopFdTableMax (fdTableIterator table) []

/-- A table, and the descriptors inserted and not removed since. -/
structure FdTableLedger where
  table : FdTable
  descriptors : Finset ℕ
  deriving DecidableEq

inductive FdTableEvent where
  | insert (watcher : Watcher) (fd : ℕ)
  | remove (fd : ℕ)
  deriving DecidableEq, Repr

def FdTableLedger.Enabled (l : FdTableLedger) : FdTableEvent → Prop
  | .insert _ fd => fd < 1024 ∧ fd ∉ l.descriptors
  | .remove fd => fd ∈ l.descriptors

def FdTableLedger.exec (l : FdTableLedger) : FdTableEvent → Res FdTableLedger
  | .insert watcher fd => do
    let table ← fdTableInsert l.table watcher fd
    .ok ⟨table, insert fd l.descriptors⟩
  | .remove fd => do
    let table ← fdTableRemove l.table fd
    .ok ⟨table, l.descriptors.erase fd⟩

def fdTableMachine : Machine FdTableLedger FdTableEvent Fault :=
  ⟨FdTableLedger.Enabled, FdTableLedger.exec⟩

instance (l : FdTableLedger) (e : FdTableEvent) : Decidable (fdTableMachine.enabled l e) :=
  match e with
  | .insert _ fd => inferInstanceAs (Decidable (fd < 1024 ∧ fd ∉ l.descriptors))
  | .remove fd => inferInstanceAs (Decidable (fd ∈ l.descriptors))

/-- The counter counts the descriptors, every insertion and removal goes through, and the
enumeration goes through them in increasing order and ends with -1. -/
structure FdTableLedger.Enumerated (l : FdTableLedger) : Prop where
  size : fdTableSize l.table = l.descriptors.card
  goes : ∀ e, fdTableMachine.enabled l e → ∃ t, fdTableMachine.exec l e = .ok t
  closes : ∃ fds : List ℕ, fds.Pairwise (· < ·) ∧ (∀ fd, fd ∈ fds ↔ fd ∈ l.descriptors) ∧
    runloopClose l.table = .ok (fds.map (↑), -1)

section scan

variable (table : FdTable)

/-- From the first entry at `i` or behind it, the loop goes through all entries there. It is
the entry at the end of the table that it cannot go on from. -/
theorem runloopCloseLoop_scan (n i fuel : ℕ) (hend : i+n = runloopFdTableMax) (hfuel : n ≤ fuel)
    (closed : List ℤ) :
    runloopCloseLoop table fuel (fdTableScan table i n) closed =
      if 0 < n ∧ table.present (runloopFdTableMax-1) then
        .error (.assertion "iter+1 < runloop_FDTABLE_MAX")
      else .ok (closed ++ ((List.range' i n).filter table.present).map (↑), -1) := by
  induction n generalizing i fuel closed with
  | zero =>
    rw [if_neg (fun h => absurd h.1 (Nat.lt_irrefl 0))]
    cases fuel <;> simp [runloopCloseLoop, fdTableScan]
  | succ n ih =>
    rw [fdTableScan, List.range'_succ, List.filter_cons]
    by_cases hi : table.present i = true
    · obtain ⟨fuel, rfl⟩ : ∃ f, fuel = f+1 := ⟨fuel-1, by omega⟩
      rw [if_pos hi, if_pos hi, runloopCloseLoop, if_neg (by omega)]
      by_cases hlast : n = 0
      · subst hlast
        have hi' : i = runloopFdTableMax-1 := by omega
        have hstop : ¬((i : ℤ)+1 < runloopFdTableMax) := by omega
        rw [fdTableNextIterator, decide_eq_false hstop, cAssert_false, error_bind, error_bind,
          if_pos ⟨Nat.one_pos, hi' ▸ hi⟩]
      · have hgo : (i : ℤ)+1 < runloopFdTableMax := by omega
        have hnext : fdTableNextIterator table i = .ok (fdTableScan table (i+1) n) := by
          rw [fdTableNextIterator, decide_eq_true hgo, cAssert_true, ok_bind,
            show ((i : ℤ)+1).toNat = i+1 by omega, show runloopFdTableMax-(i+1) = n by omega]
        rw [hnext, ok_bind, ih (i+1) fuel (by omega) (by omega)]
        simp only [Nat.pos_of_ne_zero hlast, Nat.succ_pos, List.map_cons, List.append_assoc,
          List.singleton_append]
    · rw [if_neg hi, if_neg hi, ih (i+1) fuel (by omega) (by omega)]
      by_cases hlast : n = 0
      · subst hlast
        have hi' : i = runloopFdTableMax-1 := by omega
        rw [if_neg (fun h => absurd h.1 (Nat.lt_irrefl 0)), if_neg (fun h => hi (hi' ▸ h.2))]
      · simp only [Nat.pos_of_ne_zero hlast, Nat.succ_pos]

theorem runloopClose_eq :
    runloopClose table =
      if table.present 1023 then .error (.assertion "iter+1 < runloop_FDTABLE_MAX")
      else .ok (((List.range' 0 1024).filter table.present).map (↑), -1) := by
  have h := runloopCloseLoop_scan table runloopFdTableMax 0 runloopFdTableMax (Nat.zero_add _) le_rfl []
  rw [runloopClose, fdTableIterator, h]
  simp [runloopFdTableMax, runloopMaxFds]

end scan

/-- The entries of the table are those of the descriptors. -/
structure FdTableLedger.Known (l : FdTableLedger) : Prop where
  length : l.table.entries.length = 1024
  below : ∀ fd ∈ l.descriptors, fd < 1024
  entries : ∀ fd, l.table.present fd = true ↔ fd ∈ l.descriptors
  count : l.table.count = l.descriptors.card

theorem FdTable.present_set (this : FdTable) (count fd fd' : ℕ) (entry : Option Watcher)
    (hfd : fd < this.entries.length) :
    FdTable.present ⟨count, this.entries.set fd entry⟩ fd' =
      if fd' = fd then entry.isSome else this.present fd' := by
  rw [FdTable.present, List.getD_eq_getElem?_getD]
  split_ifs with heq
  · subst heq
    rw [List.getElem?_set_self hfd, Option.getD_some]
  · rw [List.getElem?_set_ne (Ne.symm heq), FdTable.present, List.getD_eq_getElem?_getD]

/-- An entry inside the table is there or NULL. -/
theorem FdTable.entry_of_lt (this : FdTable) (fd : ℕ) (hfd : fd < this.entries.length) :
    ∃ entry, this.entries[fd]? = some entry ∧ this.present fd = entry.isSome := by
  refine ⟨this.entries.get ⟨fd, hfd⟩, List.getElem?_eq_getElem hfd, ?_⟩
  rw [FdTable.present, List.getD_eq_getElem?_getD, List.getElem?_eq_getElem hfd, Option.getD_some]
  rfl

section ledger

variable {l : FdTableLedger}

theorem FdTableLedger.Known.insert (h : l.Known) (watcher : Watcher) (fd : ℕ) (hfd : fd < 1024)
    (hnew : fd ∉ l.descriptors) :
    ∃ t, l.exec (.insert watcher fd) = .ok t ∧ t.Known := by
  have hlt : fd < l.table.entries.length := by rwa [h.length]
  obtain ⟨entry, hentry, hpresent⟩ := l.table.entry_of_lt fd hlt
  obtain rfl : entry = none := by
    rw [← Option.not_isSome_iff_eq_none, ← hpresent, h.entries]
    exact hnew
  refine ⟨⟨⟨l.table.count+1, l.table.entries.set fd (some watcher)⟩, Insert.insert fd l.descriptors⟩,
    ?_, ?_, ?_, fun fd' => ?_, ?_⟩
  · simp only [FdTableLedger.exec, fdTableInsert, hentry, Option.isNone_none, cAssert_true, ok_bind]
  · rw [List.length_set, h.length]
  · exact Finset.forall_mem_insert .. |>.mpr ⟨hfd, h.below⟩
  · rw [FdTable.present_set _ _ _ _ _ hlt, Finset.mem_insert, ← h.entries]
    split_ifs with heq <;> simp [heq]
  · rw [Finset.card_insert_of_notMem hnew, h.count]

theorem FdTableLedger.Known.remove (h : l.Known) (fd : ℕ) (hmem : fd ∈ l.descriptors) :
    ∃ t, l.exec (.remove fd) = .ok t ∧ t.Known := by
  have hlt : fd < l.table.entries.length := by
    rw [h.length]
    exact h.below fd hmem
  obtain ⟨entry, hentry, hpresent⟩ := l.table.entry_of_lt fd hlt
  have hsome : entry.isSome = true := by
    rw [← hpresent, h.entries]
    exact hmem
  refine ⟨⟨⟨l.table.count-1, l.table.entries.set fd none⟩, l.descriptors.erase fd⟩,
    ?_, ?_, fun fd' hfd' => h.below fd' (Finset.mem_of_mem_erase hfd'), fun fd' => ?_, ?_⟩
  · simp only [FdTableLedger.exec, fdTableRemove, hentry, hsome, cAssert_true, ok_bind]
  · rw [List.length_set, h.length]
  · rw [FdTable.present_set _ _ _ _ _ hlt, Finset.mem_erase, ← h.entries]
    split_ifs with heq <;> simp [heq]
  · rw [Finset.card_erase_of_mem hmem, h.count]

theorem FdTableLedger.Known.step (h : l.Known) (e : FdTableEvent) (he : fdTableMachine.enabled l e) :
    ∃ t, fdTableMachine.exec l e = .ok t ∧ t.Known := by
  cases e with
  | insert watcher fd => exact h.insert watcher fd he.1 he.2
  | remove fd => exact h.remove fd he

theorem fdTableInit_known : FdTableLedger.Known ⟨fdTableInit, ∅⟩ := by
  refine ⟨List.length_replicate, nofun, fun fd => ?_, rfl⟩
  have habsent : fdTableInit.present fd = false := by
    rw [FdTable.present, fdTableInit, List.getD_eq_getElem?_getD, List.getElem?_replicate]
    split_ifs <;> rfl
  rw [habsent]
  exact iff_of_false Bool.false_ne_true (Finset.notMem_empty fd)

theorem FdTableLedger.Known.enumerated_iff (h : l.Known) : l.Enumerated ↔ 1023 ∉ l.descriptors := by
  rw [← h.entries]
  constructor
  · rintro ⟨-, -, fds, -, -, hclose⟩ hlast
    rw [runloopClose_eq, if_pos hlast] at hclose
    cases hclose
  · intro hlast
    refine ⟨h.count, fun e he => ?_, (List.range' 0 1024).filter l.table.present, ?_, fun fd => ?_, ?_⟩
    · obtain ⟨t, hx, -⟩ := h.step e he
      exact ⟨t, hx⟩
    · exact (List.pairwise_lt_range' 1).filter _
    · rw [List.mem_filter, List.mem_range'_1, h.entries]
      refine ⟨fun hmem => hmem.2, fun hmem => ⟨⟨Nat.zero_le fd, ?_⟩, hmem⟩⟩
      rw [Nat.zero_add]
      exact h.below fd hmem
    · rw [runloopClose_eq, if_neg hlast]

end ledger

/-- After any insertions and removals, the descriptors are enumerated, and `runloop_close`
closes each of them once and returns, exactly if the last place of the table is free. -/
theorem fdTable_enumerated_iff (es : List FdTableEvent) (l : FdTableLedger)
    (h : fdTableMachine.Run ⟨fdTableInit, ∅⟩ es l) : l.Enumerated ↔ 1023 ∉ l.descriptors := by
  have hknown : l.Known := h.keeps_of_total (fun l e hl he => hl.step e he) fdTableInit_known
  exact hknown.enumerated_iff

theorem fdTable_enumerated_two :
    ∃ l, fdTableMachine.Run ⟨fdTableInit, ∅⟩
        [.insert ⟨64, 0⟩ 0, .insert ⟨65, 7⟩ 7, .insert ⟨66, 1022⟩ 1022, .remove 7] l ∧
      l.descriptors = {0, 1022} ∧ l.Enumerated := by
  obtain ⟨l, hrun, hdescriptors⟩ : ∃ l, fdTableMachine.Run ⟨fdTableInit, ∅⟩
      [.insert ⟨64, 0⟩ 0, .insert ⟨65, 7⟩ 7, .insert ⟨66, 1022⟩ 1022, .remove 7] l ∧
      l.descriptors = {0, 1022} :=
    Machine.exists_run_of_replay _ (by decide +kernel)
  refine ⟨l, hrun, hdescriptors, (fdTable_enumerated_iff _ l hrun).mpr ?_⟩
  rw [hdescriptors]
  decide

/-- Descriptor 1023 is registered: once it is closed, `FdTable_next_iterator` aborts. -/
theorem fdTable_last_descriptor_aborts :
    ∃ l, fdTableMachine.Run ⟨fdTableInit, ∅⟩ [.insert ⟨64, 1023⟩ 1023] l ∧
      l.descriptors = {1023} ∧
      runloopClose l.table = .error (.assertion "iter+1 < runloop_FDTABLE_MAX") := by
  obtain ⟨l, hrun, hdescriptors, hpresent⟩ : ∃ l, fdTableMachine.Run ⟨fdTableInit, ∅⟩
      [.insert ⟨64, 1023⟩ 1023] l ∧ l.descriptors = {1023} ∧ l.table.present 1023 = true :=
    Machine.exists_run_of_replay _ (by decide +kernel)
  exact ⟨l, hrun, hdescriptors, by rw [runloopClose_eq, if_pos hpresent]⟩

end CHttp
