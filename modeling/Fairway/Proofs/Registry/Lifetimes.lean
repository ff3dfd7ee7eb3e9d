import Fairway.Proofs.Registry.Stored
import Fairway.Proofs.Store.Ends
import Fairway.Registry.Basic

namespace Fairway

/-- A duration that can be read is a count in 64 bits, of milliseconds or of seconds. -/
theorem Duration.counted_of_parse {s : String} {d : Duration} (read : parse s = .ok d) :
    ∃ n < countBound, d.millis = n ∨ d.millis = 1000 * n := by
  simp only [parse] at read
  split at read
  case h_2 => cases read
  case h_1 found =>
    cases read
    split at found
    · obtain ⟨n, counted, rfl⟩ := Option.map_eq_some_iff.1 found
      exact ⟨n, lt_of_readBelow? counted, .inl rfl⟩
    · obtain ⟨_, _, counts⟩ := Option.bind_eq_some_iff.1 found
      obtain ⟨n, counted, rfl⟩ := Option.map_eq_some_iff.1 counts
      exact ⟨n, lt_of_readBelow? counted, .inr rfl⟩

namespace Lease

/-- How often the clock starts over until a lease is to run out that is granted or renewed now. -/
def laps (now : Nat) (ttl : Duration) : Nat := (now + ttl.millis) / timeBound

variable {now : Nat} {a b : Duration}

theorem expiry_add_laps (now : Nat) (ttl : Duration) : expiry now ttl + timeBound * laps now ttl = now + ttl.millis :=
  Nat.mod_add_div _ _

theorem expiry_lt (now : Nat) (ttl : Duration) : expiry now ttl < timeBound := Nat.mod_lt _ (by decide)

/-- Whole laps of the clock do not make a lease last. What is left of its lifetime must be something, and end before
the clock starts over. -/
theorem lt_expiry_iff (small : now < timeBound) (ttl : Duration) :
    now < expiry now ttl ↔ 0 < ttl.millis % timeBound ∧ now + ttl.millis % timeBound < timeBound := by
  have left : ttl.millis % timeBound < timeBound := Nat.mod_lt _ (by decide)
  have same : expiry now ttl = (now + ttl.millis % timeBound) % timeBound := (Nat.add_mod_mod _ _ _).symm
  by_cases fits : now + ttl.millis % timeBound < timeBound
  · rw [same, Nat.mod_eq_of_lt fits]
    omega
  · have wrapped : (now + ttl.millis % timeBound) % timeBound = now + ttl.millis % timeBound - timeBound := by
      rw [Nat.mod_eq_sub_mod (Nat.not_lt.1 fits), Nat.mod_eq_of_lt (by omega)]
    rw [same, wrapped]
    omega

/-- A longer lifetime has to make up for each lap that it adds. -/
theorem expiry_le_iff (longer : a.millis ≤ b.millis) :
    expiry now a ≤ expiry now b ↔ timeBound * (laps now b - laps now a) ≤ b.millis - a.millis := by
  have more : timeBound * laps now a ≤ timeBound * laps now b :=
    Nat.mul_le_mul_left _ (Nat.div_le_div_right (Nat.add_le_add_left longer now))
  have first := expiry_add_laps now a
  have second := expiry_add_laps now b
  rw [Nat.mul_sub]
  omega

theorem get?_of_refresh {l : Lease} {s t : Store} (refreshed : Ends s (l.refresh now) t (.ok ())) :
    t.get? l.key = some (expiryValue now l.ttl) := by
  rcases refreshed.of_call with answered | ⟨e, failed⟩
  · obtain ⟨rfl, -⟩ := answered.of_done
    exact (s.get?_put _ _ _).trans (if_pos rfl)
  · cases failed.of_done.2

end Lease

/-- What becomes of the leases of a registry that was set up by a configuration. -/
structure Registry.Grants (r : Registry) (now : Nat) : Prop where
  /-- Their lifetime is a count in 64 bits, of milliseconds or of seconds. -/
  counted : ∃ n < Duration.countBound, r.ttl.millis = n ∨ r.ttl.millis = 1000 * n
  /-- What is written when one is granted or renewed is read back as the time at which it runs out. -/
  written : ∀ id s t, Ends s ((r.grant id).refresh now) t (.ok ()) →
    (((t.get? (r.grant id).key).bind Utf8.decode?).bind fun text => readBelow? Lease.timeBound text.toList) =
      some (Lease.expiry now r.ttl)
  /-- It is then alive, exactly if its lifetime is not made up of whole laps of the clock, and what is left besides
  these ends before the clock starts over. -/
  alive : ∀ id s t, Ends s ((r.grant id).refresh now) t (.ok ()) →
    (Lease.isAlive now (t.get? (r.grant id).key) ↔
      0 < r.ttl.millis % Lease.timeBound ∧ now + r.ttl.millis % Lease.timeBound < Lease.timeBound)
  /-- With a longer lifetime it does not run out earlier, exactly if that is longer by all the laps that it adds. -/
  ordered : ∀ ttl : Duration, r.ttl.millis ≤ ttl.millis →
    (Lease.expiry now r.ttl ≤ Lease.expiry now ttl ↔
      Lease.timeBound * (Lease.laps now ttl - Lease.laps now r.ttl) ≤ ttl.millis - r.ttl.millis)

namespace Registry

theorem ofConfig_cases {c : Config} {r : Registry} (accepted : ofConfig c = .ok r) :
    c.leaseDuration = .ok r.ttl ∧ r.lease = none := by
  unfold ofConfig at accepted
  split at accepted
  case h_1 ttl read =>
    cases accepted
    exact ⟨read, rfl⟩
  case h_2 => cases accepted

/-- Whatever the text of the lifetime, as long as it is accepted. -/
theorem grants_of_config {c : Config} {r : Registry} (accepted : ofConfig c = .ok r) {now : Nat}
    (small : now < Lease.timeBound) : r.Grants now := by
  obtain ⟨read, ungranted⟩ := ofConfig_cases accepted
  have lifetime (id : String) : (r.grant id).ttl = r.ttl := by simp [grant, ungranted]
  refine ⟨Duration.counted_of_parse read, ?_, ?_, fun ttl longer => Lease.expiry_le_iff longer⟩
  · intro id s t refreshed
    rw [Lease.get?_of_refresh refreshed, lifetime]
    simp [Lease.expiryValue, Utf8.decode?_encode, readBelow?_decimal (Lease.expiry_lt now r.ttl)]
  · intro id s t refreshed
    rw [Lease.get?_of_refresh refreshed, lifetime, Lease.isAlive_expiryValue, decide_eq_true_iff]
    exact Lease.lt_expiry_iff small r.ttl

/-- Leases that are to last a little longer than the clock takes to start over last as much as they are to last
longer, and run out before those that are to last a minute. -/
theorem grants_beyond_lap : ∃ r, ofConfig { leaseTtl := "18446744073709552s" } = .ok r ∧ r.Grants 1700000000000 ∧
    (∀ id s t, Ends s ((r.grant id).refresh 1700000000000) t (.ok ()) →
      Lease.isAlive 1700000000000 (t.get? (r.grant id).key)) ∧
    Lease.expiry 1700000000000 r.ttl < Lease.expiry 1700000000000 (.ofSeconds 60) := by
  have accepted : ofConfig { leaseTtl := "18446744073709552s" } =
      .ok { root := "/notification", ttl := .ofSeconds 18446744073709552 } := rfl
  have grants : Grants _ 1700000000000 := grants_of_config accepted (by decide)
  refine ⟨_, accepted, grants, fun id s t refreshed => ?_, by decide⟩
  exact (grants.alive id s t refreshed).2 (by decide)

/-- A lifetime of whole laps of the clock is accepted, but its leases are dead as soon as they are granted. They run
out before those of shorter lifetimes. -/
theorem dead_when_granted :
    (¬ ∀ (c : Config) (r : Registry) (now : Nat), ofConfig c = .ok r → 1 ≤ r.ttl.millis → now < Nat.pow 2 63 →
      ∀ id s t, Ends s ((r.grant id).refresh now) t (.ok ()) → Lease.isAlive now (t.get? (r.grant id).key)) ∧
    ¬ ∀ (c d : Config) (r q : Registry) (now : Nat), ofConfig c = .ok r → ofConfig d = .ok q → 1 ≤ r.ttl.millis →
      r.ttl.millis ≤ q.ttl.millis → now < Nat.pow 2 63 → Lease.expiry now r.ttl ≤ Lease.expiry now q.ttl := by
  have accepted : ofConfig { leaseTtl := "2305843009213693952s" } =
      .ok { root := "/notification", ttl := .ofSeconds 2305843009213693952 } := rfl
  constructor
  · intro live
    have refreshed : Ends {} ((grant { root := "/notification", ttl := .ofSeconds 2305843009213693952 } "a").refresh
      1700000000000) _ (.ok ()) := .answered (.done _ _)
    have alive := live _ _ 1700000000000 accepted (by decide) (by decide) "a" {} _ refreshed
    rw [Lease.get?_of_refresh refreshed, Lease.isAlive_expiryValue] at alive
    exact absurd alive (by decide)
  · intro ordered
    exact absurd (ordered {} _ _ _ 1700000000000 rfl accepted (by decide) (by decide) (by decide)) (by decide)

end Registry

end Fairway
