import InterWeave.Runtime.Ingress

/-!
How many tokens an ingress bucket grants. A refill moves the bucket's reference time by a whole
number of milliseconds, rounded down, so the configured rate is kept exactly by the rates that
divide a minute and by no other.
-/

namespace InterWeave.Bucket

open Saturating

def answers (bucket : Bucket) : List Nat → List (Nat × Bool)
  | [] => []
  | now :: rest =>
    let (after, granted) := bucket.tryConsume now
    (now, granted) :: after.answers rest

def grantedBy (bucket : Bucket) (times : List Nat) (time : Nat) : Nat :=
  (bucket.answers times).countP fun answer => answer.1 ≤ time ∧ answer.2 = true

structure Schedule (created : Nat) (times : List Nat) : Prop where
  ordered : (created :: times).Pairwise (· ≤ ·)
  ranged : ∀ time ∈ times, time ≤ u64Max

variable {bucket : Bucket} {now time width : Nat} {times : List Nat}

theorem grantedBy_cons (bucket : Bucket) (now : Nat) (rest : List Nat) (time : Nat) :
    bucket.grantedBy (now :: rest) time =
      (bucket.tryConsume now).1.grantedBy rest time +
        if now ≤ time ∧ (bucket.tryConsume now).2 = true then 1 else 0 := by
  simp only [grantedBy, answers, List.countP_cons, decide_eq_true_eq]

theorem answers_times (bucket : Bucket) (times : List Nat) :
    (bucket.answers times).map Prod.fst = times := by
  induction times generalizing bucket with
  | nil => rfl
  | cons now rest ih => simp [answers, ih]

theorem grantedBy_eq_zero (later : ∀ now ∈ times, time < now) :
    bucket.grantedBy times time = 0 := by
  refine List.countP_eq_zero.mpr fun answer member => ?_
  have listed : answer.1 ∈ times := by
    rw [← answers_times bucket times]
    exact List.mem_map_of_mem member
  have := later answer.1 listed
  simp only [decide_eq_true_eq]
  omega

theorem refill_exact (exact : width * bucket.perMinute = msPerMinute)
    (reached : bucket.lastRefillMs ≤ now) (ranged : now ≤ u64Max) :
    ∃ gained, (bucket.refill now).tokens ≤ bucket.tokens + gained ∧
      (bucket.refill now).lastRefillMs = bucket.lastRefillMs + gained * width ∧
      (bucket.refill now).perMinute = bucket.perMinute ∧
      bucket.lastRefillMs + gained * width ≤ now := by
  unfold refill
  split
  · exact ⟨0, by simp, by simp, rfl, by simpa using reached⟩
  next positive =>
    simp only
    split
    · exact ⟨0, by simp, by simp, rfl, by simpa using reached⟩
    · split
      · exact ⟨0, by simp, by simp, rfl, by simpa using reached⟩
      · have whole : min (mul64 (now - bucket.lastRefillMs) bucket.perMinute / msPerMinute)
            u32Max * width ≤ now - bucket.lastRefillMs := by
          calc min (mul64 (now - bucket.lastRefillMs) bucket.perMinute / msPerMinute) u32Max *
                width
              ≤ (now - bucket.lastRefillMs) * bucket.perMinute / msPerMinute * width := by
                refine Nat.mul_le_mul_right _ ((min_le_left _ _).trans ?_)
                exact Nat.div_le_div_right (min_le_left _ _)
            _ = (now - bucket.lastRefillMs) / width * width := by
                rw [← exact, Nat.mul_div_mul_right _ _ (Nat.pos_of_ne_zero positive)]
            _ ≤ now - bucket.lastRefillMs := Nat.div_mul_le_self _ _
        generalize gainedEq : min (mul64 (now - bucket.lastRefillMs) bucket.perMinute /
          msPerMinute) u32Max = gained at whole ⊢
        have small : gained ≤ u32Max := gainedEq ▸ min_le_right _ _
        have spent : mul64 gained msPerMinute / bucket.perMinute = gained * width := by
          have fits : gained * msPerMinute ≤ u64Max := by
            unfold u32Max at small
            unfold msPerMinute u64Max
            omega
          rw [mul64, min_eq_left fits, ← exact, ← mul_assoc,
            Nat.mul_div_cancel _ (Nat.pos_of_ne_zero positive)]
        refine ⟨gained, ?_, ?_, rfl, by omega⟩
        · exact (min_le_left _ _).trans (min_le_left _ _)
        · simp only [spent]
          exact min_eq_left (by omega)

theorem grantedBy_le (exact : width * bucket.perMinute = msPerMinute)
    (schedule : Schedule bucket.lastRefillMs times) (time : Nat) :
    bucket.grantedBy times time ≤ bucket.tokens + (time - bucket.lastRefillMs) / width := by
  have positive : 0 < width := by
    refine Nat.pos_of_ne_zero fun zero => ?_
    rw [zero, Nat.zero_mul] at exact
    cases exact
  induction times generalizing bucket with
  | nil => exact Nat.zero_le _
  | cons now rest ih =>
    obtain ⟨ordered, ranged⟩ := schedule
    have order := List.pairwise_cons.mp ordered
    have reached : bucket.lastRefillMs ≤ now := order.1 now List.mem_cons_self
    by_cases later : time < now
    · have all : ∀ call ∈ now :: rest, time < call := by
        intro call member
        rcases List.mem_cons.mp member with same | after
        · omega
        · exact later.trans_le ((List.pairwise_cons.mp order.2).1 call after)
      rw [grantedBy_eq_zero all]
      exact Nat.zero_le _
    · obtain ⟨gained, tokens, last, rate, inside⟩ :=
        refill_exact exact reached (ranged now List.mem_cons_self)
      have paid : (time - (bucket.lastRefillMs + gained * width)) / width + gained =
          (time - bucket.lastRefillMs) / width := by
        rw [← Nat.add_mul_div_right _ _ positive]
        congr 1
        omega
      have schedule : Schedule (bucket.lastRefillMs + gained * width) rest := by
        refine ⟨List.pairwise_cons.mpr ⟨fun call member => ?_, (List.pairwise_cons.mp order.2).2⟩,
          fun call member => ranged call (List.mem_cons_of_mem _ member)⟩
        exact inside.trans ((List.pairwise_cons.mp order.2).1 call member)
      rw [← last] at schedule paid
      have rated : width * (bucket.refill now).perMinute = msPerMinute := by rw [rate]; exact exact
      rw [grantedBy_cons]
      unfold tryConsume
      generalize bucket.refill now = refilled at tokens schedule paid rated ⊢
      simp only
      split
      · have rests := ih rated schedule
        simp only [Bool.false_eq_true, and_false, ↓reduceIte, Nat.add_zero]
        omega
      · have rests := @ih { refilled with tokens := refilled.tokens - 1 } rated schedule
        change _ ≤ refilled.tokens - 1 + (time - refilled.lastRefillMs) / width at rests
        simp only
        split <;> omega

def drained (rate last : Nat) : Bucket := ⟨0, 1, rate, last⟩

theorem drained_tryConsume (positive : 0 < rate) (most : rate ≤ msPerMinute)
    (loses : ¬rate ∣ msPerMinute) (early : last + msPerMinute / rate ≤ u64Max) :
    (drained rate last).tryConsume (last + msPerMinute / rate + 1) =
      (drained rate (last + msPerMinute / rate), true) := by
  have below : msPerMinute / rate * rate < msPerMinute := by
    refine lt_of_le_of_ne (Nat.div_mul_le_self _ _) fun same => loses ?_
    exact ⟨_, (same.symm.trans (Nat.mul_comm _ _))⟩
  have above : msPerMinute < (msPerMinute / rate + 1) * rate := by
    rw [Nat.add_mul, Nat.one_mul]
    exact Nat.lt_div_mul_add positive
  have top : (msPerMinute / rate + 1) * rate < 2 * msPerMinute := by
    rw [Nat.add_mul, Nat.one_mul]
    omega
  have elapsed : last + msPerMinute / rate + 1 - last = msPerMinute / rate + 1 := by
    rw [Nat.add_assoc, Nat.add_sub_cancel_left]
  have product : mul64 (msPerMinute / rate + 1) rate = (msPerMinute / rate + 1) * rate := by
    refine min_eq_left (top.le.trans ?_)
    unfold msPerMinute u64Max
    omega
  have one : min ((msPerMinute / rate + 1) * rate / msPerMinute) u32Max = 1 := by
    rw [Nat.div_eq_of_lt_le (k := 1) (by rw [Nat.one_mul]; exact above.le) top]
    rfl
  have width : mul64 1 msPerMinute / rate = msPerMinute / rate := rfl
  have refilled : (drained rate last).refill (last + msPerMinute / rate + 1) =
      ⟨1, 1, rate, last + msPerMinute / rate⟩ := by
    unfold refill drained
    simp only [elapsed, product, one, width, Nat.ne_of_gt positive, ↓reduceIte, Nat.add_eq_zero_iff,
      one_ne_zero, and_false]
    rw [add64, min_eq_left early]
    rfl
  unfold tryConsume
  rw [refilled]
  rfl

theorem drained_grantedBy (positive : 0 < rate) (most : rate ≤ msPerMinute)
    (loses : ¬rate ∣ msPerMinute) (count done : Nat)
    (early : (done + count) * (msPerMinute / rate) ≤ u64Max) :
    (drained rate (done * (msPerMinute / rate))).grantedBy
      ((List.range' done count).map fun index => (index + 1) * (msPerMinute / rate) + 1)
      ((done + count) * (msPerMinute / rate) + 1) = count := by
  induction count generalizing done with
  | zero => rfl
  | succ count ih =>
    have next : (done + 1) * (msPerMinute / rate) =
        done * (msPerMinute / rate) + msPerMinute / rate := by rw [Nat.add_mul, Nat.one_mul]
    have shift : done + 1 + count = done + (count + 1) := by omega
    have order : (done + 1) * (msPerMinute / rate) ≤
        (done + (count + 1)) * (msPerMinute / rate) := Nat.mul_le_mul_right _ (by omega)
    rw [List.range'_succ, List.map_cons, grantedBy_cons, next,
      drained_tryConsume positive most loses (by omega), ← next]
    have rests := ih (done + 1) (by rw [shift]; exact early)
    rw [shift] at rests
    rw [rests, if_pos ⟨by omega, rfl⟩]

theorem leak_schedule (early : count * width < u64Max) :
    Schedule 0 (0 :: (List.range' 0 count).map fun index => (index + 1) * width + 1) := by
  refine ⟨?_, ?_⟩
  · refine List.pairwise_cons.mpr ⟨fun _ _ => Nat.zero_le _, List.pairwise_cons.mpr
      ⟨fun _ _ => Nat.zero_le _, ?_⟩⟩
    refine List.pairwise_map.mpr ((List.pairwise_le_range' 1).imp fun {first second} order => ?_)
    exact Nat.succ_le_succ (Nat.mul_le_mul_right _ (Nat.succ_le_succ order))
  · intro time member
    rcases List.mem_cons.mp member with zero | later
    · omega
    · obtain ⟨index, listed, same⟩ := List.mem_map.mp later
      have inside : index + 1 ≤ count := by simpa using (List.mem_range'_1.mp listed).2
      have := Nat.mul_le_mul_right width inside
      omega

/-- A bucket never grants more than its burst and what its rate has earned since it was made,
for exactly the rates that divide a minute. -/
theorem never_overgrants_iff (rate : Nat) (positive : 1 ≤ rate) (most : rate ≤ 60000) :
    (∀ burst created times time, 1 ≤ burst → burst ≤ u32Max → Schedule created times →
      (new rate burst created).grantedBy times time ≤
        burst + (time - created) * rate / msPerMinute) ↔
    rate ∣ msPerMinute := by
  constructor
  · intro bounded
    by_contra loses
    have below : msPerMinute / rate * rate < msPerMinute := by
      refine lt_of_le_of_ne (Nat.div_mul_le_self _ _) fun same => loses ?_
      exact ⟨_, same.symm.trans (Nat.mul_comm _ _)⟩
    generalize widthEq : msPerMinute / rate = width at below
    have narrow : width ≤ 60000 := widthEq ▸ Nat.div_le_self _ _
    have span : (rate + 1) * width ≤ 60001 * 60000 := Nat.mul_le_mul (by omega) narrow
    have early : (rate + 1) * width < u64Max := span.trans_lt (by decide)
    have granted := drained_grantedBy positive most loses (rate + 1) 0
      (by rw [widthEq, Nat.zero_add]; exact early.le)
    have exceeded := bounded 1 0 _ ((rate + 1) * width + 1) le_rfl (by decide)
      (leak_schedule early)
    have first : (new rate 1 0).tryConsume 0 = (drained rate 0, true) := by
      simp [tryConsume, refill, new, drained]
    rw [widthEq, Nat.zero_mul, Nat.zero_add] at granted
    rw [grantedBy_cons, first, granted, if_pos ⟨Nat.zero_le _, rfl⟩] at exceeded
    -- The rounded width is short of the exact one, and the shortfall of more than `rate` of them
    -- is more than one token.
    have short : ((rate + 1) * width + 1 - 0) * rate < (rate + 1) * msPerMinute := by
      have scaled : (rate + 1) * (width * rate + 1) ≤ (rate + 1) * msPerMinute :=
        Nat.mul_le_mul_left _ below
      calc ((rate + 1) * width + 1 - 0) * rate
          = (rate + 1) * (width * rate) + rate := by
            rw [Nat.sub_zero, Nat.add_mul, Nat.one_mul, Nat.mul_assoc]
        _ < (rate + 1) * (width * rate + 1) := by
            rw [Nat.mul_add, Nat.mul_one]
            omega
        _ ≤ (rate + 1) * msPerMinute := scaled
    have := (Nat.div_lt_iff_lt_mul (by decide)).mpr short
    omega
  · rintro ⟨width, exact⟩ burst created times time - - schedule
    have bounded := @grantedBy_le (new rate burst created) width times
      (by rw [Nat.mul_comm, exact]; rfl) schedule time
    have earned : (time - created) * rate / msPerMinute = (time - created) / width := by
      rw [exact, Nat.mul_comm rate width, Nat.mul_div_mul_right _ _ positive]
    rw [earned]
    exact bounded

/-- A bucket of one token that refills two tokens every three milliseconds grants four in four. -/
theorem rounded_refill_overgrants : Schedule 0 [0, 2, 3, 4] ∧
    1 + (4 - 0) * 40000 / msPerMinute < (new 40000 1 0).grantedBy [0, 2, 3, 4] 4 := by
  refine ⟨⟨by decide, by decide⟩, by decide⟩

theorem never_overgrants_iff_default :
    (∀ burst created times time, 1 ≤ burst → burst ≤ u32Max → Schedule created times →
      (new 120 burst created).grantedBy times time ≤
        burst + (time - created) * 120 / msPerMinute) ↔
    120 ∣ msPerMinute :=
  never_overgrants_iff 120 (by decide) (by decide)

end InterWeave.Bucket
