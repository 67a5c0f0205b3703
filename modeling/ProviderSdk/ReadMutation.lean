import ProviderSdk.FaultSchedule

/-!
# What the decorator does to a read

A read that the inner bus answered with `n` bytes is corrupted, cut short and padded, in
this order. `Mutation` says what the caller then finds in the buffer and in the count :
the three together, with the read-phase number deciding which of them happen. The loop of
the padding writes where it should (`getElem_padFrom`), so nothing at or beyond the larger
of the two counts is touched.
-/

namespace ProviderSdk.I2c

variable {σ : Type}

/-! ## The contract -/

/-- An every-N mode happens at the read phase `r`. -/
def Happens (every : UInt32) (r : ℕ) : Prop :=
  0 < every.toNat ∧ every.toNat ∣ r

instance (every : UInt32) (r : ℕ) : Decidable (Happens every r) :=
  inferInstanceAs (Decidable (_ ∧ _))

/-- The bytes of a reply of `n` that are kept. -/
def FaultSpec.kept (spec : FaultSpec) (r n : ℕ) : ℕ :=
  n - if Happens spec.shortEvery r then 1 else 0

/-- At the read phase `r`, a reply of `n` bytes in a buffer `data` for `rxLen` becomes one of
`m` bytes in `data'`. -/
structure Mutation (spec : FaultSpec) (r rxLen n : ℕ) (data : Bytes) (m : ℕ) (data' : Bytes) :
    Prop where
  received_le : m ≤ rxLen
  /-- Nothing happens to an empty reply. -/
  empty : n = 0 → m = 0 ∧ data' = data
  received : 0 < n → m = spec.kept r n + min spec.pad.toNat (rxLen - spec.kept r n)
  length : data'.length = data.length
  kept : 0 < n → ∀ i, (h : i < data.length) → i < spec.kept r n →
    data'[i] = if i = 0 ∧ Happens spec.corruptEvery r then ~~~data[i] else data[i]
  padding : 0 < n → ∀ i, (h : i < data.length) → spec.kept r n ≤ i → i < m →
    data'[i] = spec.padByte
  /-- Nothing is written beyond the two replies. -/
  beyond : ∀ i, (h : i < data.length) → max n m ≤ i → data'[i] = data[i]

/-! ## The buffer -/

section Buffer

variable {data : Bytes} {base : ℕ} {b : UInt8} {i : ℕ}

theorem padFrom_succ (data : Bytes) (base add : ℕ) (b : UInt8) :
    padFrom data base (add + 1) b = (padFrom data base add b).set (base + add) b := by
  rw [padFrom, List.range_succ, List.foldl_append]
  rfl

@[simp] theorem length_padFrom (data : Bytes) (base add : ℕ) (b : UInt8) :
    (padFrom data base add b).length = data.length := by
  induction add with
  | zero => rfl
  | succ add ih => rw [padFrom_succ, List.length_set, ih]

/-- The padding, and nothing else, is written. -/
theorem getElem_padFrom (add : ℕ) (h : i < data.length)
    (h' : i < (padFrom data base add b).length) :
    (padFrom data base add b)[i] = if base ≤ i ∧ i < base + add then b else data[i] := by
  induction add with
  | zero =>
    rw [if_neg (by omega)]
    rfl
  | succ add ih =>
    have hlast := ih (by rwa [length_padFrom])
    simp only [padFrom_succ, List.getElem_set, hlast]
    split_ifs <;> first | rfl | omega

end Buffer

/-- The tests of the code on a counter. -/
theorem happens_iff (every : UInt32) (c : UInt64) :
    (0 < every ∧ c % every.toUInt64 = 0) ↔ Happens every c.toNat := by
  have h := @every_iff every c.toNat c.toNat_lt
  rwa [UInt64.ofNat_toNat] at h

/-- The buffer with its first byte inverted, if that happens. -/
def FaultSpec.corrupted (spec : FaultSpec) (r : ℕ) (data : Bytes) : Bytes :=
  if Happens spec.corruptEvery r then data.modify 0 (· ^^^ 0xFF) else data

section Corrupted

variable {spec : FaultSpec} {r : ℕ} {data : Bytes}

@[simp] theorem length_corrupted : (spec.corrupted r data).length = data.length := by
  unfold FaultSpec.corrupted
  split_ifs
  · exact List.length_modify _ _ _
  · rfl

theorem getElem_corrupted {i : ℕ} (h : i < data.length)
    (h' : i < (spec.corrupted r data).length) : (spec.corrupted r data)[i] =
      if i = 0 ∧ Happens spec.corruptEvery r then ~~~data[i] else data[i] := by
  have hinvert (b : UInt8) : b ^^^ 0xFF = ~~~b := UInt8.xor_neg_one
  by_cases hr : Happens spec.corruptEvery r
  · simp only [FaultSpec.corrupted, hr, if_true, and_true, List.getElem_modify, hinvert,
      eq_comm (a := i) (b := 0)]
  · simp only [FaultSpec.corrupted, hr, and_false, if_false]

end Corrupted

/-- What `mutate_read` makes of a reply that is not empty. -/
theorem mutateRead_eq (spec : FaultSpec) (c : UInt64) (rxLen : ℕ) {n : ℕ} (hn : 0 < n)
    (data : Bytes) : mutateRead spec c rxLen ⟨some data, some n⟩ =
      let kept := spec.kept c.toNat n
      let add := min spec.pad.toNat (rxLen - kept)
      ⟨some (padFrom (spec.corrupted c.toNat data) kept add spec.padByte), some (kept + add)⟩ := by
  have hkept : (if 0 < spec.shortEvery ∧ c % spec.shortEvery.toUInt64 = 0 ∧ 0 < n then n - 1
      else n) = spec.kept c.toNat n := by
    unfold FaultSpec.kept
    by_cases h : Happens spec.shortEvery c.toNat
    · obtain ⟨hon, hdvd⟩ := (happens_iff _ c).mpr h
      rw [if_pos ⟨hon, hdvd, hn⟩, if_pos h]
    · rw [if_neg fun hs => h ((happens_iff _ c).mp ⟨hs.1, hs.2.1⟩), if_neg h, Nat.sub_zero]
  have hroom (k : ℕ) : (if k < rxLen then rxLen - k else 0) = rxLen - k := by
    split_ifs <;> omega
  simp only [mutateRead, if_neg hn.ne', happens_iff, hkept, hroom]
  by_cases hpad : 0 < spec.pad
  · rw [if_pos hpad]
    rfl
  · have hzero : spec.pad.toNat = 0 := by
      rw [UInt32.lt_iff_toNat_lt] at hpad
      exact Nat.eq_zero_of_not_pos hpad
    rw [if_neg hpad, hzero, Nat.zero_min]
    rfl

/-- `mutate_read` keeps the contract. -/
theorem mutateRead_mutation (spec : FaultSpec) (c : UInt64) {rxLen n : ℕ} (hle : n ≤ rxLen)
    (data : Bytes) : ∃ data' m,
      mutateRead spec c rxLen ⟨some data, some n⟩ = ⟨some data', some m⟩ ∧
        Mutation spec c.toNat rxLen n data m data' := by
  rcases Nat.eq_zero_or_pos n with rfl | hn
  · refine ⟨data, 0, rfl, Nat.zero_le _, fun _ => ⟨rfl, rfl⟩, fun h => absurd h (by decide), rfl,
      fun h => absurd h (by decide), fun h => absurd h (by decide), fun _ _ _ => rfl⟩
  · have hkept : spec.kept c.toNat n ≤ n := Nat.sub_le _ _
    refine ⟨_, _, mutateRead_eq spec c rxLen hn data, by omega, fun h => absurd h hn.ne',
      fun _ => rfl, by simp, fun _ i h hi => ?_, fun _ i h hi hlt => ?_, fun i h hi => ?_⟩
    · -- kept
      rw [getElem_padFrom _ (by simpa using h), if_neg (by omega), getElem_corrupted h]
    · -- padding
      rw [getElem_padFrom _ (by simpa using h), if_pos ⟨hi, hlt⟩]
    · -- beyond both
      rw [getElem_padFrom _ (by simpa using h), if_neg (by omega), getElem_corrupted h,
        if_neg (by omega)]

/-! ## Runs -/

/-- An operation that the inner bus received was passed on. -/
theorem decorated_received (inner : I2cBus σ) (spec : FaultSpec) {op : Op} {reply : Reply}
    (h : op.isTransfer = true) (bus : FaultInjectingI2cBus (σ × List (Op × Reply)))
    (hlog : (decorated inner spec op bus).2.inner.2 = bus.inner.2 ++ [(op, reply)]) :
    (decorated inner spec op bus).1 =
      mutated spec (bus.counters.advance op.writePhase op.readPhase).readCount op reply := by
  rw [op.isTransfer_eq] at h
  obtain ⟨address, haddress⟩ := Option.isSome_iff_exists.mp h
  by_cases hok : (nextFault spec op bus).isOk = true
  · have hrun := @perform_delegated _ inner.recorded spec op address bus haddress hok
    simp only [decorated, hrun, I2cBus.perform_recorded, paused_log, List.append_cancel_left_eq,
      List.cons.injEq, Prod.mk.injEq, and_true, true_and] at hlog ⊢
    rw [hlog]
  · have hrun := @perform_faulted _ inner.recorded spec op address bus haddress
      (Bool.eq_false_of_not_eq_true hok)
    simp only [decorated, hrun, paused_log] at hlog
    have hlength := congrArg List.length hlog
    rw [List.length_append, List.length_singleton] at hlength
    omega

/-- In any run, a read that succeeded on the inner bus is mutated as its number says. The
number is the one that a counter of 64 bits holds. -/
theorem read_mutation (inner : I2cBus σ) (spec : FaultSpec) (s : σ) (pre : List Op) (op : Op)
    (hread : op.readPhase = true) :
    let before := ((decorated inner spec).run pre (fresh s)).2
    let ran := decorated inner spec op before
    ∀ reply data n, ran.2.inner.2 = before.inner.2 ++ [(op, reply)] → reply.status.isOk = true →
      reply.out = ⟨some data, some n⟩ → n ≤ op.rxLen →
      ∃ data' m, ran.1 = ⟨reply.status, ⟨some data', some m⟩⟩ ∧
        Mutation spec ((pre ++ [op]).countP Op.readPhase % 2 ^ 64) op.rxLen n data m data' := by
  intro before ran reply data n hlog hok hout hn
  have htransfer : op.isTransfer = true := by simp [Op.isTransfer, hread]
  have hcount : before.counters.advance op.writePhase op.readPhase = Counters.of (pre ++ [op]) := by
    have hbefore : before.counters = Counters.of pre :=
      counters_run inner.recorded spec (fresh s) rfl pre
    rw [hbefore, advance_of pre htransfer]
  have hnumber : (Counters.of (pre ++ [op])).readCount.toNat =
      (pre ++ [op]).countP Op.readPhase % 2 ^ 64 := UInt64.toNat_ofNat'
  obtain ⟨data', m, hmutate, hmutation⟩ :=
    mutateRead_mutation spec (Counters.of (pre ++ [op])).readCount hn data
  refine ⟨data', m, ?_, hnumber ▸ hmutation⟩
  have hran := decorated_received inner spec htransfer before hlog
  rw [hran, hcount, mutated, if_pos ⟨hok, hread⟩, hout, hmutate]

/-- A buffer for six bytes, the second of two. -/
def readSix : Op :=
  .read 0x10 6 1000 ⟨some [0, 0, 0, 0, 0, 0, 0, 0], some 0⟩

/-- The second read is corrupted, cut short and padded. -/
theorem read_mutation_second :
    let spec : FaultSpec := { pad := 100, shortEvery := 2, corruptEvery := 2 }
    let before := ((decorated fakeInnerBus spec).run [readSix, probe] (fresh .empty)).2
    ∃ data' m, (decorated fakeInnerBus spec readSix before).1 = ⟨.ok, ⟨some data', some m⟩⟩ ∧
      Mutation spec 2 6 4 [1, 2, 3, 4, 0, 0, 0, 0] m data' :=
  read_mutation fakeInnerBus { pad := 100, shortEvery := 2, corruptEvery := 2 } .empty
    [readSix, probe] readSix rfl ⟨.ok, ⟨some [1, 2, 3, 4, 0, 0, 0, 0], some 4⟩⟩
    [1, 2, 3, 4, 0, 0, 0, 0] 4 (by decide) rfl rfl (by decide)

end ProviderSdk.I2c
