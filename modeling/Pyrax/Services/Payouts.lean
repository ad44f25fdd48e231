import Pyrax.Services.Faucet

/-!
# What the faucet pays

Two tables limit the faucet, and both remember less than everything: an entry keeps the
times of one day only, and `cleanup` drops an entry after a week. What they remember is
enough (`Remembers`): payouts to one address are a cooldown apart, or a week where that is
shorter (`payouts_spaced`), and an IP gets no more than its limit in a UTC day
(`payouts_limited`), along every run whose clock does not go back and stays within its
64 bits (`Clocked`, `CooldownFits`).

The balance pays for every payout (`payouts_funded`), and the queue is the list of payouts
not confirmed yet (`pending_eq_owed`): none is lost, none is confirmed for another.
-/

namespace Pyrax.Faucet

open Base Word FaucetService

variable {C : Crypto} {config : FaucetConfig} {s : FaucetService} {req : FaucetRequest}
  {t : Readings}

/-! ## What the limits remember -/

section Memory

variable {K : Type} [DecidableEq K] {limits : Column K RateLimitEntry} {events : List (K × UInt64)}
  {past : List UInt64} {k : K} {now dayNow : UInt64} {e : RateLimitEntry}

/-- Every event is under the last time of its key, or it was dropped when a week old. -/
structure Remembers (limits : Column K RateLimitEntry) (events : List (K × UInt64))
    (past : List UInt64) : Prop where
  event : ∀ k time, (k, time) ∈ events →
    (∃ e last, limits.lookup k = some e ∧ e.lastRequestTime = some last ∧ time ≤ last) ∨
    ∃ reading ∈ past, time.toNat + 604800 ≤ reading.toNat
  recorded : ∀ k e, limits.lookup k = some e → ∃ last ∈ past, e.lastRequestTime = some last

namespace Remembers

theorem nil : Remembers (∅ : Column K RateLimitEntry) [] [] where
  event _ _ h := by cases h
  recorded _ _ h := by cases h

theorem later (h : Remembers limits events past) (more : List UInt64) :
    Remembers limits events (past ++ more) where
  event k time hmem := by
    rcases h.event k time hmem with hentry | ⟨reading, hpast, hle⟩
    · exact .inl hentry
    · exact .inr ⟨reading, List.mem_append_left _ hpast, hle⟩
  recorded k e hlookup := by
    obtain ⟨last, hpast, hlast⟩ := h.recorded k e hlookup
    exact ⟨last, List.mem_append_left _ hpast, hlast⟩

/-- `cleanup` forgets what is a week old, and nothing else. -/
theorem cleanup (h : Remembers limits events past) (hweek : RETENTION ≤ now) :
    Remembers (Column.filter (fun _ e => e.recent (now - RETENTION)) limits) events
      (past ++ [now]) where
  event k time hmem := by
    rcases h.event k time hmem with ⟨e, last, hlookup, hlast, hle⟩ | ⟨reading, hpast, hle⟩
    · by_cases hrecent : e.recent (now - RETENTION)
      · refine .inl ⟨e, last, ?_, hlast, hle⟩
        rw [Column.lookup_filter, hlookup, Option.filter_some, if_pos hrecent]
      · refine .inr ⟨now, List.mem_append_right _ (List.mem_singleton_self _), ?_⟩
        rw [RateLimitEntry.recent, hlast] at hrecent
        have hold := UInt64.le_iff_toNat_le.mp (UInt64.not_lt.mp (of_decide_eq_false
          (Bool.eq_false_iff.mpr hrecent)))
        rw [toNat_sub_of_le (UInt64.le_iff_toNat_le.mp hweek)] at hold
        have hretention : RETENTION.toNat = 604800 := rfl
        have hnow := UInt64.le_iff_toNat_le.mp hweek
        have htime := UInt64.le_iff_toNat_le.mp hle
        omega
    · exact .inr ⟨reading, List.mem_append_left _ hpast, hle⟩
  recorded k e hlookup := by
    rw [Column.lookup_filter, Option.filter_eq_some_iff] at hlookup
    obtain ⟨last, hpast, hlast⟩ := h.recorded k e hlookup.1
    exact ⟨last, List.mem_append_left _ hpast, hlast⟩

/-- A new event of `k`, recorded not before anything so far. -/
theorem record (h : Remembers limits events past) (hnow : ∀ reading ∈ past, reading ≤ now)
    (e : RateLimitEntry) {more : List UInt64} (hmore : now ∈ more) :
    Remembers (limits.insert k (e.addRequest now dayNow)) (events ++ [(k, now)])
      (past ++ more) where
  event k' time hmem := by
    rcases List.mem_append.mp hmem with hold | hnew
    · rcases h.event k' time hold with ⟨e', last, hlookup, hlast, hle⟩ | ⟨reading, hpast, hle⟩
      · by_cases hk : k' = k
        · obtain ⟨last', hpast, hlast'⟩ := h.recorded k' e' hlookup
          cases hlast.symm.trans hlast'
          refine .inl ⟨_, now, by rw [hk, Finmap.lookup_insert],
            e.lastRequestTime_addRequest .., ?_⟩
          exact UInt64.le_trans hle (hnow last hpast)
        · exact .inl ⟨e', last, by rw [Finmap.lookup_insert_of_ne _ hk, hlookup], hlast, hle⟩
      · exact .inr ⟨reading, List.mem_append_left _ hpast, hle⟩
    · cases List.mem_singleton.mp hnew
      exact .inl ⟨_, now, Finmap.lookup_insert .., e.lastRequestTime_addRequest ..,
        UInt64.le_refl _⟩
  recorded k' e' hlookup := by
    by_cases hk : k' = k
    · rw [hk, Finmap.lookup_insert] at hlookup
      obtain rfl := Option.some.inj hlookup
      exact ⟨now, List.mem_append_right _ hmore, e.lastRequestTime_addRequest ..⟩
    · rw [Finmap.lookup_insert_of_ne _ hk] at hlookup
      obtain ⟨last, hpast, hlast⟩ := h.recorded k' e' hlookup
      exact ⟨last, List.mem_append_left _ hpast, hlast⟩

/-- A key without an entry has no event of the last week. -/
theorem old (h : Remembers limits events past) (hnone : limits.lookup k = none)
    (hnow : ∀ reading ∈ past, reading ≤ now) {time : UInt64} (hmem : (k, time) ∈ events) :
    time.toNat + 604800 ≤ now.toNat := by
  rcases h.event k time hmem with ⟨e, last, hlookup, _⟩ | ⟨reading, hpast, hle⟩
  · rw [hnone] at hlookup
    cases hlookup
  · exact hle.trans (UInt64.le_iff_toNat_le.mp (hnow reading hpast))

end Remembers

/-! ## Counting a day -/

/-- The events of `k` on a day, the days counted from the epoch. -/
def onDay (events : List (K × UInt64)) (k : K) (day : Nat) : Nat :=
  events.countP fun event => event.1 = k ∧ event.2.toNat / 86400 = day

theorem onDay_snoc (events : List (K × UInt64)) (k k' : K) (time : UInt64) (day : Nat) :
    onDay (events ++ [(k', time)]) k day
      = onDay events k day + if k' = k ∧ time.toNat / 86400 = day then 1 else 0 := by
  rw [onDay, List.countP_append, List.countP_singleton]
  simp only [decide_eq_true_eq]
  rfl

theorem onDay_eq_zero {day : Nat}
    (h : ∀ time, (k, time) ∈ events → time.toNat / 86400 ≠ day) : onDay events k day = 0 := by
  refine List.countP_eq_zero.mpr fun event hmem => ?_
  obtain ⟨k', time⟩ := event
  intro hdec
  obtain ⟨rfl, hday⟩ := of_decide_eq_true hdec
  exact h time hmem hday

/-- An entry counts the events of its day, and there is none after that day. -/
structure CountsDay (events : List (K × UInt64)) (k : K) (e : RateLimitEntry) (day : Nat) :
    Prop where
  start : e.dayStart.toNat = 86400 * day
  last : ∀ time, (k, time) ∈ events → time.toNat < 86400 * (day + 1)
  counted : onDay events k day ≤ e.dailyCount.toNat

/-- No day has more events of a key than the limit, and every entry counts its day. -/
structure Limited (limits : Column K RateLimitEntry) (events : List (K × UInt64))
    (past : List UInt64) (limit : Nat) : Prop where
  bounded : ∀ k day, onDay events k day ≤ max 1 limit
  entry : ∀ k e, limits.lookup k = some e →
    ∃ day, CountsDay events k e day ∧ ∃ reading ∈ past, 86400 * day ≤ reading.toNat

namespace Limited

variable {limit : Nat}

theorem nil : Limited (∅ : Column K RateLimitEntry) [] [] limit where
  bounded _ _ := Nat.zero_le _
  entry _ _ h := by cases h

theorem mono {limits' : Column K RateLimitEntry} (h : Limited limits events past limit)
    (hsub : ∀ k e, limits'.lookup k = some e → limits.lookup k = some e) (more : List UInt64) :
    Limited limits' events (past ++ more) limit where
  bounded := h.bounded
  entry k e hlookup := by
    obtain ⟨day, hcounts, reading, hpast, hle⟩ := h.entry k e (hsub k e hlookup)
    exact ⟨day, hcounts, reading, List.mem_append_left _ hpast, hle⟩

/-- The day `add_request` counts in, and what it has counted there: nothing on a new day,
and less than the limit on a day that goes on. -/
theorem today {ipNow newNow : UInt64} (h : Limited limits events past limit)
    (hmem : Remembers limits events past) (hpast : ∀ reading ∈ past, reading ≤ ipNow)
    (hip : ipNow ≤ newNow) (hnew : newNow ≤ now) (hday : now ≤ dayNow)
    (hroom : now.toNat + 86400 < 2 ^ 64)
    (hcheck : ∀ e, limits.lookup k = some e → (e.requestsToday ipNow).toNat < limit) :
    ∃ day, CountsDay events k
        (((limits.lookup k).getD (.new newNow)).today now dayNow) day ∧
      now.toNat < 86400 * (day + 1) ∧ 86400 * day ≤ dayNow.toNat ∧
      (((limits.lookup k).getD (.new newNow)).today now dayNow).dailyCount.toNat < max 1 limit ∧
      (now.toNat / 86400 ≠ day → onDay events k (now.toNat / 86400) = 0) := by
  have hipNat := UInt64.le_iff_toNat_le.mp hip
  have hnewNat := UInt64.le_iff_toNat_le.mp hnew
  have hdayNat := UInt64.le_iff_toNat_le.mp hday
  cases hlookup : limits.lookup k with
  | none =>
    -- what is not remembered is a week old, so it is of an earlier day than any new entry
    have hold := fun time (hev : (k, time) ∈ events) => hmem.old hlookup hpast hev
    rw [Option.getD_none]
    have hfresh : ∃ day, (((RateLimitEntry.new newNow).today now dayNow).dayStart.toNat
          = 86400 * day) ∧ now.toNat < 86400 * (day + 1) ∧ 86400 * day ≤ dayNow.toNat ∧
        newNow.toNat / 86400 ≤ day ∧
        ((RateLimitEntry.new newNow).today now dayNow).dailyCount = 0 := by
      unfold RateLimitEntry.today
      split
      · next h =>
        exact ⟨dayNow.toNat / 86400, toNat_currentDayStart _, by omega, by omega, by omega, rfl⟩
      · next h =>
        have hstart : (RateLimitEntry.new newNow).dayStart.toNat = 86400 * (newNow.toNat / 86400) :=
          toNat_currentDayStart _
        refine ⟨newNow.toNat / 86400, hstart, ?_, by omega, Nat.le_refl _, rfl⟩
        rw [UInt64.le_iff_toNat_le, toNat_add_of_lt (by rw [hstart]; show _ + 86400 < _; omega),
          hstart] at h
        have h' : ¬ 86400 * (newNow.toNat / 86400) + 86400 ≤ now.toNat := h
        omega
    obtain ⟨day, hstart, hlt, hle, hnewday, hzero⟩ := hfresh
    refine ⟨day, ⟨hstart, fun time hev => ?_, ?_⟩, hlt, hle, ?_, fun _ => ?_⟩
    · have := hold time hev
      omega
    · rw [onDay_eq_zero fun time hev => ?_]
      · exact Nat.zero_le _
      · have := hold time hev
        omega
    · rw [hzero]
      exact Nat.lt_of_lt_of_le Nat.zero_lt_one (le_max_left _ _)
    · refine onDay_eq_zero fun time hev => ?_
      have := hold time hev
      omega
  | some e =>
    obtain ⟨day, ⟨hstart, hlast, hcounted⟩, reading, hreading, hle⟩ := h.entry k e hlookup
    have hreadingNat := UInt64.le_iff_toNat_le.mp (hpast reading hreading)
    have hend : (e.dayStart + 86400).toNat = 86400 * (day + 1) := by
      rw [toNat_add_of_lt (by rw [hstart]; show _ + 86400 < _; omega), hstart]
      rfl
    rw [Option.getD_some]
    unfold RateLimitEntry.today
    split
    · next hnewday =>
      rw [UInt64.le_iff_toNat_le, hend] at hnewday
      have hzero : ∀ d, day < d → onDay events k d = 0 := fun d hd => onDay_eq_zero
        fun time hev => by
          have := hlast time hev
          omega
      refine ⟨dayNow.toNat / 86400, ⟨toNat_currentDayStart _, fun time hev => ?_, ?_⟩, by omega,
        by omega, ?_, fun _ => hzero _ (by omega)⟩
      · have := hlast time hev
        omega
      · rw [hzero _ (by omega)]
        exact Nat.zero_le _
      · exact Nat.lt_of_lt_of_le Nat.zero_lt_one (le_max_left _ _)
    · next hsame =>
      rw [UInt64.le_iff_toNat_le, hend] at hsame
      refine ⟨day, ⟨hstart, hlast, hcounted⟩, by omega, by omega, ?_, fun hne => by omega⟩
      have hchecked := hcheck e hlookup
      rw [RateLimitEntry.requestsToday, if_neg (by rw [UInt64.le_iff_toNat_le, hend]; omega)]
        at hchecked
      exact Nat.lt_of_lt_of_le hchecked (le_max_right _ _)

theorem toNat_dailyCount_addRequest (hlimit : limit < 2 ^ 32)
    (hroomy : (e.today now dayNow).dailyCount.toNat < max 1 limit) :
    (e.addRequest now dayNow).dailyCount.toNat = (e.today now dayNow).dailyCount.toNat + 1 := by
  have hmax : max 1 limit < 2 ^ 32 := max_lt (by decide) hlimit
  rw [RateLimitEntry.dailyCount_addRequest, UInt32.toNat_add]
  exact Nat.mod_eq_of_lt (Nat.lt_of_le_of_lt hroomy hmax)

/-- One more event in an entry that counts its day keeps the limit. -/
theorem insert {day : Nat} (h : Limited limits events past limit)
    (hcounts : CountsDay events k (e.today now dayNow) day) (hlt : now.toNat < 86400 * (day + 1))
    (hle : 86400 * day ≤ dayNow.toNat)
    (hroomy : (e.today now dayNow).dailyCount.toNat < max 1 limit)
    (helse : now.toNat / 86400 ≠ day → onDay events k (now.toNat / 86400) = 0)
    (hlimit : limit < 2 ^ 32) {more : List UInt64} (hmore : dayNow ∈ more) :
    Limited (limits.insert k (e.addRequest now dayNow)) (events ++ [(k, now)]) (past ++ more)
      limit := by
  obtain ⟨hstart, hlast, hcounted⟩ := hcounts
  have hcount : onDay (events ++ [(k, now)]) k day ≤ (e.today now dayNow).dailyCount.toNat + 1 := by
    rw [onDay_snoc]
    split <;> omega
  constructor
  · intro k' day'
    by_cases hk : k = k'
    · subst hk
      by_cases hday' : now.toNat / 86400 = day'
      · subst hday'
        by_cases hsame : now.toNat / 86400 = day
        · rw [hsame]
          omega
        · rw [onDay_snoc, helse hsame, if_pos ⟨rfl, rfl⟩]
          exact le_max_left _ _
      · rw [onDay_snoc, if_neg fun hand => hday' hand.2]
        exact h.bounded k day'
    · rw [onDay_snoc, if_neg fun hand => hk hand.1]
      exact h.bounded k' day'
  · intro k' e' hlookup
    by_cases hk : k' = k
    · subst hk
      rw [Finmap.lookup_insert] at hlookup
      obtain rfl := Option.some.inj hlookup
      refine ⟨day, ⟨?_, fun time hev => ?_, ?_⟩, dayNow, List.mem_append_right _ hmore, hle⟩
      · rw [RateLimitEntry.dayStart_addRequest]
        exact hstart
      · rcases List.mem_append.mp hev with hold | hnew'
        · exact hlast time hold
        · cases List.mem_singleton.mp hnew'
          exact hlt
      · rw [toNat_dailyCount_addRequest hlimit hroomy]
        exact hcount
    · rw [Finmap.lookup_insert_of_ne _ hk] at hlookup
      obtain ⟨day', ⟨hstart', hlast', hcounted'⟩, reading, hreading, hle'⟩ := h.entry k' e' hlookup
      refine ⟨day', ⟨hstart', fun time hev => ?_, ?_⟩, reading, List.mem_append_left _ hreading,
        hle'⟩
      · rcases List.mem_append.mp hev with hold | hnew'
        · exact hlast' time hold
        · cases List.mem_singleton.mp hnew'
          exact absurd rfl hk
      · rw [onDay_snoc, if_neg fun hand => hk hand.1.symm]
        exact hcounted'

/-- A counted event that passed the check keeps the limit. -/
theorem record {ipNow newNow : UInt64} (h : Limited limits events past limit)
    (hmem : Remembers limits events past) (hpast : ∀ reading ∈ past, reading ≤ ipNow)
    (hip : ipNow ≤ newNow) (hnew : newNow ≤ now) (hday : now ≤ dayNow)
    (hroom : now.toNat + 86400 < 2 ^ 64) (hlimit : limit < 2 ^ 32)
    (hcheck : ∀ e, limits.lookup k = some e → (e.requestsToday ipNow).toNat < limit)
    {more : List UInt64} (hmore : dayNow ∈ more) :
    Limited (limits.insert k (((limits.lookup k).getD (.new newNow)).addRequest now dayNow))
      (events ++ [(k, now)]) (past ++ more) limit := by
  obtain ⟨day, hcounts, hlt, hle, hroomy, helse⟩ :=
    h.today hmem hpast hip hnew hday hroom hcheck
  exact h.insert hcounts hlt hle hroomy helse hlimit hmore

end Limited

end Memory

/-! ## Along a run -/

/-- The payouts as the table of addresses sees them. -/
def addressEvents (grants : List Grant) : List (Address × UInt64) :=
  grants.map fun g => (g.req.address, g.t.addressNow)

/-- The payouts as the table of IPs sees them. -/
def ipEvents (grants : List Grant) : List (String × UInt64) :=
  grants.map fun g => (g.req.ipAddress, g.t.ipNow)

/-- What the two tables know of the payouts made so far. -/
structure Known (config : FaucetConfig) (s : FaucetService) (grants : List Grant)
    (past : List UInt64) : Prop where
  addresses : Remembers s.addressLimits (addressEvents grants) past
  ips : Remembers s.ipLimits (ipEvents grants) past
  limited : Limited s.ipLimits (ipEvents grants) past config.maxRequestsPerIp.toNat

namespace FaucetService

theorem le_of_checkAddressLimit {a : Address} {e : RateLimitEntry} {last : UInt64}
    (h : s.checkAddressLimit config t a = none) (hlookup : s.addressLimits.lookup a = some e)
    (hlast : e.lastRequestTime = some last) : last + config.cooldownSecs ≤ t.address := by
  unfold checkAddressLimit at h
  rw [hlookup, Option.bind_some, hlast] at h
  simp only at h
  split at h
  · cases h
  · next hnot => exact UInt64.not_lt.mp hnot

theorem lt_of_checkIpLimit {ip : String} {e : RateLimitEntry}
    (h : s.checkIpLimit config t ip = none) (hlookup : s.ipLimits.lookup ip = some e) :
    (e.requestsToday t.ip).toNat < config.maxRequestsPerIp.toNat := by
  unfold checkIpLimit at h
  rw [hlookup] at h
  simp only at h
  split at h
  · cases h
  · next hnot => exact UInt32.lt_iff_toNat_lt.mp (UInt32.not_le.mp hnot)

end FaucetService

/-- The readings of one request, in order. -/
structure Readings.Ordered (t : Readings) : Prop where
  address_le_hash : t.address ≤ t.hash
  hash_le_addressNow : t.hash ≤ t.addressNow
  address_le_ip : t.address ≤ t.ip
  ip_le_ipNew : t.ip ≤ t.ipNew
  ipNew_le_ipNow : t.ipNew ≤ t.ipNow
  ipNow_le_ipDay : t.ipNow ≤ t.ipDay
  address_le_addressNow : t.address ≤ t.addressNow

theorem Readings.ordered_of_pairwise (h : t.toList.Pairwise (· ≤ ·)) : t.Ordered := by
  have hle : ∀ i j : Fin 12, i < j → t.toList.get i ≤ t.toList.get j :=
    List.pairwise_iff_get.mp h
  exact ⟨hle 0 3 (by decide), hle 3 6 (by decide), hle 0 2 (by decide), hle 2 8 (by decide),
    hle 8 9 (by decide), hle 9 10 (by decide), hle 0 6 (by decide)⟩

namespace Known

variable {grants : List Grant} {past : List UInt64}

theorem later (h : Known config s grants past) (more : List UInt64) :
    Known config s grants (past ++ more) :=
  ⟨h.addresses.later more, h.ips.later more, h.limited.mono (fun _ _ h => h) more⟩

theorem cleanup {now : UInt64} (h : Known config s grants past) (hweek : RETENTION ≤ now) :
    Known config (s.cleanup now) grants (past ++ [now]) := by
  refine ⟨h.addresses.cleanup hweek, h.ips.cleanup hweek, h.limited.mono (fun k e hlookup => ?_) _⟩
  rw [FaucetService.cleanup, Column.lookup_filter, Option.filter_eq_some_iff] at hlookup
  exact hlookup.1

theorem paid (h : Known config s grants past) (hpast : ∀ reading ∈ past, reading ≤ t.address)
    (hordered : t.Ordered) (hroom : t.ipNow.toNat + 86400 < 2 ^ 64)
    (hip : s.checkIpLimit config t req.ipAddress = none) :
    Known config (s.paid C config req t) (grants ++ [⟨req, t⟩]) (past ++ t.toList) := by
  have haddressNow : ∀ reading ∈ past, reading ≤ t.addressNow := fun reading hmem =>
    UInt64.le_trans (hpast reading hmem) hordered.address_le_addressNow
  have hipRead : ∀ reading ∈ past, reading ≤ t.ip := fun reading hmem =>
    UInt64.le_trans (hpast reading hmem) hordered.address_le_ip
  have hipNow : ∀ reading ∈ past, reading ≤ t.ipNow := fun reading hmem =>
    UInt64.le_trans (hipRead reading hmem)
      (UInt64.le_trans hordered.ip_le_ipNew hordered.ipNew_le_ipNow)
  constructor
  · rw [addressEvents, List.map_append, List.map_singleton]
    exact h.addresses.record haddressNow _ (by simp [Readings.toList])
  · rw [ipEvents, List.map_append, List.map_singleton]
    exact h.ips.record hipNow _ (by simp [Readings.toList])
  · rw [ipEvents, List.map_append, List.map_singleton]
    exact h.limited.record h.ips hipRead hordered.ip_le_ipNew hordered.ipNew_le_ipNow
      hordered.ipNow_le_ipDay hroom (UInt32.toNat_lt _)
      (fun e hlookup => lt_of_checkIpLimit hip hlookup) (by simp [Readings.toList])

end Known

variable {calls : List Call}

/-- After every run the tables know the payouts. -/
theorem known_of_run (C : Crypto) (config : FaucetConfig) (hclock : Clocked calls) :
    Known config (Call.run C config .new calls) (Call.grants C config .new calls)
      (calls.flatMap Call.readings) := by
  induction calls using List.reverseRecOn with
  | nil => exact ⟨.nil, .nil, .nil⟩
  | append_singleton calls call ih =>
    obtain ⟨hprev, hordered, hpast, hweek, hroom⟩ := hclock.snoc
    have h := ih hprev
    rw [Call.run_snoc, Call.grants_snoc, List.flatMap_append, List.flatMap_singleton]
    rcases Call.grant_cases C config (Call.run C config .new calls) call with
      ⟨hnone, hrefused⟩ | ⟨req, t, rfl, hgrant, _, _, hip, happly⟩
    · rw [hnone, Option.toList_none, List.append_nil]
      cases call with
      | setBalance balance =>
        have h' := h.later []
        exact ⟨h'.addresses, h'.ips, h'.limited⟩
      | confirmTx txHash =>
        have h' := h.later []
        exact ⟨h'.addresses, h'.ips, h'.limited⟩
      | cleanup now =>
        exact h.cleanup (hweek now rfl)
      | request req t =>
        rw [hrefused req t rfl]
        exact h.later _
    · rw [hgrant, happly, Option.toList_some]
      refine h.paid (fun reading hmem => hpast reading hmem _ ?_)
        (Readings.ordered_of_pairwise hordered) (hroom _ ?_) hip
      · exact List.mem_cons_self
      · simp [Call.readings, Readings.toList]

/-- No reading of the run wraps when the cooldown is added. -/
def CooldownFits (config : FaucetConfig) (calls : List Call) : Prop :=
  ∀ now ∈ calls.flatMap Call.readings, now.toNat + config.cooldownSecs.toNat < 2 ^ 64

theorem spaced_of_run (hclock : Clocked calls) (hfits : CooldownFits config calls) :
    (Call.grants C config .new calls).Pairwise fun g g' =>
      g.req.address = g'.req.address →
        g.t.addressNow.toNat + min config.cooldownSecs.toNat 604800 ≤ g'.t.address.toNat := by
  induction calls using List.reverseRecOn with
  | nil => exact .nil
  | append_singleton calls call ih =>
    obtain ⟨hprev, hordered, hpast, _⟩ := hclock.snoc
    have hfits' : CooldownFits config calls := fun now hmem => hfits now (by
      rw [List.flatMap_append]
      exact List.mem_append_left _ hmem)
    have h := known_of_run C config hprev
    rw [Call.grants_snoc]
    refine List.pairwise_append.mpr ⟨ih hprev hfits', ?_, fun g hg g' hg' haddress => ?_⟩
    · cases (call.grant C config (Call.run C config .new calls)) with
      | none => exact .nil
      | some g => exact List.pairwise_singleton _ _
    rcases Call.grant_cases C config (Call.run C config .new calls) call with
      ⟨hnone, _⟩ | ⟨req, t, rfl, hgrant, _, hcheck, _⟩
    · rw [hnone] at hg'
      cases hg'
    · rw [hgrant] at hg'
      cases List.mem_singleton.mp hg'
      -- the payout before is still under the last time of the address, or it was dropped
      rcases h.addresses.event g.req.address g.t.addressNow (List.mem_map_of_mem hg) with
        ⟨e, last, hlookup, hlast, hle⟩ | ⟨reading, hmem, hle⟩
      · obtain ⟨last', hmem, hlast'⟩ := h.addresses.recorded _ e hlookup
        cases hlast.symm.trans hlast'
        have hcooldown := le_of_checkAddressLimit hcheck (haddress ▸ hlookup) hlast
        rw [UInt64.le_iff_toNat_le, toNat_add_of_lt (hfits' last hmem)] at hcooldown
        have htime := UInt64.le_iff_toNat_le.mp hle
        show _ ≤ t.address.toNat
        omega
      · have hreading := UInt64.le_iff_toNat_le.mp
          (hpast reading hmem t.address List.mem_cons_self)
        show _ ≤ t.address.toNat
        omega

/-- Two payouts to one address are a cooldown apart, or a week where that is shorter. -/
theorem payouts_spaced (hclock : Clocked calls) (hfits : CooldownFits config calls) :
    (Call.grants C config .new calls).Pairwise fun g g' =>
      g.req.address = g'.req.address →
        g.t.addressNow.toNat + min config.cooldownSecs.toNat 604800 ≤ g'.t.address.toNat :=
  spaced_of_run hclock hfits

/-- A request during which the clock stands still. -/
def Readings.still (now : UInt64) : Readings :=
  ⟨now, now, now, now, now, now, now, now, now, now, now, now⟩

/-- The default faucet, without its captcha. -/
def FaucetConfig.withoutCaptcha : FaucetConfig :=
  { FaucetConfig.default with requireCaptcha := false }

/-- The digests of the two payouts below. -/
def payoutCrypto : Crypto := Crypto.ofTable
  [(payoutBytes .withoutCaptcha .ZERO 10000000000 1000000,
      H256.ofNatBE 0x8ce32a07baee77c73b2c6041f374ef51d23406a4e0f077e3bac395a2d4e6f73d),
    (payoutBytes .withoutCaptcha .ZERO 10000000000 1100000,
      H256.ofNatBE 0x1830bf6e96ac33944aa1a4e94ebdfff521264ad14e1076a98681bef208bbfc3d)]

/-- Three requests of one address, the second an hour after the first, with a clean-up, and
the confirmation of the first payout. -/
def sampleCalls : List Call :=
  [.setBalance 100000000000, .request ⟨.ZERO, "10.0.0.1", none⟩ (.still 1000000),
    .request ⟨.ZERO, "10.0.0.1", none⟩ (.still 1003600), .cleanup 1050000,
    .request ⟨.ZERO, "10.0.0.1", none⟩ (.still 1100000),
    .confirmTx (H256.ofNatBE 0x8ce32a07baee77c73b2c6041f374ef51d23406a4e0f077e3bac395a2d4e6f73d)]

/-- The readings of the sample end after two weeks. -/
theorem sampleCalls_readings : ∀ now ∈ sampleCalls.flatMap Call.readings,
    now.toNat ≤ 1100000 := by
  have hall : (sampleCalls.flatMap Call.readings).all (fun now => decide (now ≤ 1100000)) = true := by
    decide +kernel
  intro now hnow
  exact UInt64.le_iff_toNat_le.mp (of_decide_eq_true (List.all_eq_true.mp hall now hnow))

theorem sampleCalls_clocked : Clocked sampleCalls where
  ordered := by decide +kernel
  started now hnow := by
    simp only [sampleCalls, List.mem_cons, reduceCtorEq, Call.cleanup.injEq, List.not_mem_nil,
      or_false, false_or] at hnow
    rw [hnow]
    decide
  room now hnow := by
    have hle := sampleCalls_readings now hnow
    omega

theorem sampleCalls_fits : CooldownFits .withoutCaptcha sampleCalls := by
  intro now hnow
  have hle := sampleCalls_readings now hnow
  have hcooldown : FaucetConfig.withoutCaptcha.cooldownSecs.toNat = 86400 := rfl
  omega

theorem payouts_spaced_sample :
    (Call.grants payoutCrypto .withoutCaptcha .new sampleCalls).length = 2 ∧
    (Call.grants payoutCrypto .withoutCaptcha .new sampleCalls).Pairwise fun g g' =>
      g.req.address = g'.req.address →
        g.t.addressNow.toNat + 86400 ≤ g'.t.address.toNat :=
  ⟨by decide +kernel, payouts_spaced sampleCalls_clocked sampleCalls_fits⟩

/-- On every UTC day an IP is paid at most its limit, or once where the limit is zero. -/
theorem payouts_limited (hclock : Clocked calls) (ip : String) (day : Nat) :
    ((Call.grants C config .new calls).filter fun g =>
      g.req.ipAddress = ip ∧ g.t.ipNow.toNat / 86400 = day).length
      ≤ max 1 config.maxRequestsPerIp.toNat := by
  have hbound := (known_of_run C config hclock).limited.bounded ip day
  rw [onDay, ipEvents, List.countP_map, List.countP_eq_length_filter] at hbound
  exact hbound

theorem payouts_limited_sample :
    ((Call.grants payoutCrypto .withoutCaptcha .new sampleCalls).filter fun g =>
      g.req.ipAddress = "10.0.0.1" ∧ g.t.ipNow.toNat / 86400 = 12).length ≤ 3 :=
  payouts_limited sampleCalls_clocked "10.0.0.1" 12

/-! ## Funds -/

/-- A call that does not set the balance. -/
def Call.Spends : Call → Prop
  | .setBalance _ => False
  | _ => True

instance : DecidablePred Call.Spends
  | .setBalance _ => inferInstanceAs (Decidable False)
  | .request _ _ | .confirmTx _ | .cleanup _ => inferInstanceAs (Decidable True)

theorem Call.balance_apply (C : Crypto) (config : FaucetConfig) (call : Call)
    (hspends : call.Spends) (s : FaucetService) :
    (call.apply C config s).balance.toNat
      + config.amount.toNat * (call.grant C config s).toList.length = s.balance.toNat := by
  rcases Call.grant_cases C config s call with
    ⟨hnone, hrefused⟩ | ⟨req, t, rfl, hgrant, hbalance, _, _, happly⟩
  · rw [hnone]
    cases call with
    | setBalance balance => exact hspends.elim
    | confirmTx txHash => rfl
    | cleanup now => rfl
    | request req t =>
      rw [hrefused req t rfl]
      rfl
  · rw [hgrant, happly, Option.toList_some, List.length_singleton, Nat.mul_one]
    have hle := UInt64.le_iff_toNat_le.mp hbalance
    show (s.balance - config.amount).toNat + config.amount.toNat = s.balance.toNat
    rw [toNat_sub_of_le hle]
    omega

theorem Call.totalDispensed_apply (C : Crypto) (config : FaucetConfig) (call : Call)
    (s : FaucetService) :
    (call.apply C config s).stats.totalDispensed
      = s.stats.totalDispensed
        + UInt64.ofNat (config.amount.toNat * (call.grant C config s).toList.length) ∧
    (call.apply C config s).stats.requestsFulfilled
      = s.stats.requestsFulfilled + UInt64.ofNat (call.grant C config s).toList.length := by
  rcases Call.grant_cases C config s call with
    ⟨hnone, hrefused⟩ | ⟨req, t, rfl, hgrant, _, _, _, happly⟩
  · rw [hnone, Option.toList_none, List.length_nil, Nat.mul_zero]
    cases call with
    | setBalance balance => exact ⟨(UInt64.add_zero _).symm, (UInt64.add_zero _).symm⟩
    | confirmTx txHash => exact ⟨(UInt64.add_zero _).symm, (UInt64.add_zero _).symm⟩
    | cleanup now => exact ⟨(UInt64.add_zero _).symm, (UInt64.add_zero _).symm⟩
    | request req t =>
      rw [hrefused req t rfl]
      exact ⟨(UInt64.add_zero _).symm, (UInt64.add_zero _).symm⟩
  · rw [hgrant, happly, Option.toList_some, List.length_singleton, Nat.mul_one, UInt64.ofNat_toNat]
    exact ⟨rfl, rfl⟩

theorem balance_run : ∀ (calls : List Call) (s : FaucetService), (∀ call ∈ calls, call.Spends) →
    (Call.run C config s calls).balance.toNat
      + config.amount.toNat * (Call.grants C config s calls).length = s.balance.toNat
  | [], _, _ => rfl
  | call :: calls, s, hspends => by
    have hcall := call.balance_apply C config (hspends call List.mem_cons_self) s
    have hrest := balance_run calls (call.apply C config s)
      fun call' hmem => hspends call' (List.mem_cons_of_mem _ hmem)
    rw [Call.grants, List.length_append, Nat.mul_add]
    show (Call.run C config (call.apply C config s) calls).balance.toNat + _ = _
    omega

theorem stats_run (C : Crypto) (config : FaucetConfig) : ∀ (calls : List Call)
    (s : FaucetService),
    (Call.run C config s calls).stats.totalDispensed = s.stats.totalDispensed
      + UInt64.ofNat (config.amount.toNat * (Call.grants C config s calls).length) ∧
    (Call.run C config s calls).stats.requestsFulfilled
      = s.stats.requestsFulfilled + UInt64.ofNat (Call.grants C config s calls).length
  | [], s => ⟨(UInt64.add_zero _).symm, (UInt64.add_zero _).symm⟩
  | call :: calls, s => by
    obtain ⟨htotal, hcount⟩ := call.totalDispensed_apply C config s
    obtain ⟨htotal', hcount'⟩ := stats_run C config calls (call.apply C config s)
    rw [Call.grants, List.length_append, Nat.mul_add, UInt64.ofNat_add, UInt64.ofNat_add,
      ← UInt64.add_assoc, ← UInt64.add_assoc, ← htotal, ← hcount]
    exact ⟨htotal', hcount'⟩

/-- The balance pays for every payout made since it was set, and never goes below what
that takes; the statistics count every payout since the start. -/
theorem payouts_funded (before calls : List Call) (hspends : ∀ call ∈ calls, call.Spends) :
    (Call.run C config .new (before ++ calls)).balance.toNat
      + config.amount.toNat
        * (Call.grants C config (Call.run C config .new before) calls).length
      = (Call.run C config .new before).balance.toNat ∧
    (Call.run C config .new (before ++ calls)).stats.totalDispensed
      = UInt64.ofNat (config.amount.toNat
        * (Call.grants C config .new (before ++ calls)).length) ∧
    (Call.run C config .new (before ++ calls)).stats.requestsFulfilled
      = UInt64.ofNat (Call.grants C config .new (before ++ calls)).length := by
  have hstats := stats_run C config (before ++ calls) .new
  rw [show FaucetService.new.stats.totalDispensed = 0 from rfl,
    show FaucetService.new.stats.requestsFulfilled = 0 from rfl, UInt64.zero_add,
    UInt64.zero_add] at hstats
  refine ⟨?_, hstats⟩
  rw [Call.run, List.foldl_append]
  exact balance_run calls _ hspends

/-- Two payouts of a hundred PYRAX out of a thousand. -/
theorem payouts_funded_sample :
    (Call.run payoutCrypto .withoutCaptcha .new sampleCalls).balance = 80000000000 ∧
    (Call.run payoutCrypto .withoutCaptcha .new sampleCalls).balance.toNat
      + 10000000000 * (Call.grants payoutCrypto .withoutCaptcha
        (Call.run payoutCrypto .withoutCaptcha .new [.setBalance 100000000000])
        sampleCalls.tail).length
      = (Call.run payoutCrypto .withoutCaptcha .new [.setBalance 100000000000]).balance.toNat :=
  ⟨by decide +kernel,
    (payouts_funded [.setBalance 100000000000] sampleCalls.tail (by decide +kernel)).1⟩

/-! ## The queue -/

/-- The hash under which a payout waits. -/
def Grant.txHash (C : Crypto) (config : FaucetConfig) (g : Grant) : H256 :=
  C.blake3 (payoutBytes config g.req.address config.amount g.t.hash)

/-- What a call does to the payouts that are owed: it adds its own, and a confirmation takes
away the payout it names. -/
def Call.owes (C : Crypto) (config : FaucetConfig) (s : FaucetService) (owed : List H256)
    (call : Call) : List H256 :=
  match call with
  | .confirmTx txHash => owed.filter (· ≠ txHash)
  | _ => owed ++ ((call.grant C config s).toList.map (Grant.txHash C config))

theorem Call.owes_request (waiting : List H256) :
    (Call.request req t).owes C config s waiting
      = waiting ++ (((Call.request req t).grant C config s).toList.map (Grant.txHash C config)) :=
  rfl

/-- The payouts of a run that are not confirmed, oldest first. -/
def owed (C : Crypto) (config : FaucetConfig) (s : FaucetService) (waiting : List H256) :
    List Call → List H256
  | [] => waiting
  | call :: calls => owed C config (call.apply C config s) (call.owes C config s waiting) calls

theorem owed_snoc {call : Call} : ∀ (calls : List Call) (s : FaucetService) (waiting : List H256),
    owed C config s waiting (calls ++ [call])
      = call.owes C config (Call.run C config s calls) (owed C config s waiting calls)
  | [], _, _ => rfl
  | c :: calls, s, waiting => owed_snoc calls (c.apply C config s) (c.owes C config s waiting)

theorem payoutBytes_inj {a b : Address} {amount now now' : UInt64}
    (h : payoutBytes config a amount now = payoutBytes config b amount now') :
    a = b ∧ now = now' := by
  unfold payoutBytes at h
  obtain ⟨hleft, hnow⟩ := List.append_inj h (by simp)
  obtain ⟨hleft, _⟩ := List.append_inj' hleft rfl
  exact ⟨Address.asBytes_inj (List.append_cancel_left hleft), Wire.encU64_inj hnow⟩

namespace FaucetService

theorem map_txHash_confirmFirst (txHash : H256) : ∀ queue : List PendingFaucetTx,
    (confirmFirst txHash queue).map (·.txHash) = queue.map (·.txHash)
  | [] => rfl
  | tx :: queue => by
    unfold confirmFirst
    split
    · rfl
    · rw [List.map_cons, List.map_cons, map_txHash_confirmFirst txHash queue]

/-- Where no two payouts share a hash, confirming the first under a hash takes away the
payout of that hash. -/
theorem pending_confirmFirst (txHash : H256) : ∀ queue : List PendingFaucetTx,
    (queue.map (·.txHash)).Nodup →
    (((confirmFirst txHash queue).filter fun tx => !tx.confirmed).map (·.txHash))
      = ((queue.filter fun tx => !tx.confirmed).map (·.txHash)).filter (· ≠ txHash)
  | [], _ => rfl
  | tx :: queue, hnodup => by
    obtain ⟨hfresh, hnodup⟩ := List.nodup_cons.mp hnodup
    unfold confirmFirst
    by_cases hhash : tx.txHash = txHash
    · have hrest : ((queue.filter fun tx => !tx.confirmed).map (·.txHash)).filter (· ≠ txHash)
          = (queue.filter fun tx => !tx.confirmed).map (·.txHash) := by
        refine List.filter_eq_self.mpr fun other hmem => decide_eq_true fun heq => hfresh ?_
        obtain ⟨tx', htx', rfl⟩ := List.mem_map.mp hmem
        show tx.txHash ∈ _
        rw [hhash, ← heq]
        exact List.mem_map_of_mem (List.mem_of_mem_filter htx')
      rw [if_pos hhash, List.filter_cons_of_neg (by simp)]
      cases hconfirmed : tx.confirmed with
      | true => rw [List.filter_cons_of_neg (by simp [hconfirmed]), hrest]
      | false =>
        rw [List.filter_cons_of_pos (by simp [hconfirmed]), List.map_cons,
          List.filter_cons_of_neg (by simp [hhash]), hrest]
    · rw [if_neg hhash]
      cases hconfirmed : tx.confirmed with
      | true =>
        rw [List.filter_cons_of_neg (by simp [hconfirmed]),
          List.filter_cons_of_neg (by simp [hconfirmed]), pending_confirmFirst txHash queue hnodup]
      | false =>
        rw [List.filter_cons_of_pos (by simp [hconfirmed]),
          List.filter_cons_of_pos (by simp [hconfirmed]), List.map_cons, List.map_cons,
          List.filter_cons_of_pos (by simp [hhash]), pending_confirmFirst txHash queue hnodup]

theorem pending_cleanup (s : FaucetService) (now : UInt64) :
    (s.cleanup now).getPendingTxs = s.getPendingTxs := by
  unfold getPendingTxs cleanup
  rw [List.filter_filter]
  congr 1
  refine List.filter_congr fun tx _ => ?_
  cases tx.confirmed <;> simp

end FaucetService

namespace Call

/-- The queue holds payouts that were made, in their order. -/
theorem queue_sublist (C : Crypto) (config : FaucetConfig) (calls : List Call) :
    ((run C config .new calls).txQueue.map (·.txHash)).Sublist
      ((grants C config .new calls).map (Grant.txHash C config)) := by
  induction calls using List.reverseRecOn with
  | nil => exact List.Sublist.refl _
  | append_singleton calls call ih =>
    rw [run_snoc, grants_snoc, List.map_append]
    rcases grant_cases C config (run C config .new calls) call with
      ⟨hnone, hrefused⟩ | ⟨req, t, rfl, hgrant, _, _, _, happly⟩
    · rw [hnone, Option.toList_none, List.map_nil, List.append_nil]
      cases call with
      | setBalance balance => exact ih
      | confirmTx txHash =>
        show ((confirmFirst txHash _).map _).Sublist _
        rw [map_txHash_confirmFirst]
        exact ih
      | cleanup now => exact (List.filter_sublist.map _).trans ih
      | request req t =>
        rw [hrefused req t rfl]
        exact ih
    · rw [hgrant, happly]
      show ((_ ++ [_] : List PendingFaucetTx).map _).Sublist _
      rw [List.map_append]
      exact ih.append (List.Sublist.refl _)

/-- One call keeps the list of what is owed. -/
theorem pending_apply (call : Call) (hnodup : (s.txQueue.map (·.txHash)).Nodup) :
    (call.apply C config s).getPendingTxs = call.owes C config s s.getPendingTxs := by
  rcases grant_cases C config s call with
    ⟨hnone, hrefused⟩ | ⟨req, t, rfl, hgrant, _, _, _, happly⟩
  · cases call with
    | setBalance balance => exact (List.append_nil _).symm
    | confirmTx txHash => exact pending_confirmFirst txHash s.txQueue hnodup
    | cleanup now => exact (pending_cleanup s now).trans (List.append_nil _).symm
    | request req t =>
      rw [hrefused req t rfl, owes_request, hnone]
      exact (List.append_nil _).symm
  · rw [happly, owes_request, hgrant]
    show ((_ ++ [_] : List PendingFaucetTx).filter _).map _ = _
    rw [List.filter_append, List.map_append]
    rfl

/-- The readings of every payout are in order. -/
theorem grants_ordered (hclock : Clocked calls) :
    ∀ g ∈ grants C config .new calls, g.t.Ordered := by
  induction calls using List.reverseRecOn with
  | nil => exact fun _ h => by cases h
  | append_singleton calls call ih =>
    obtain ⟨hprev, hordered, _, _⟩ := hclock.snoc
    intro g hg
    rw [grants_snoc] at hg
    rcases List.mem_append.mp hg with hold | hnew
    · exact ih hprev g hold
    rcases grant_cases C config (run C config .new calls) call with
      ⟨hnone, _⟩ | ⟨req, t, rfl, hgrant, _⟩
    · rw [hnone] at hnew
      cases hnew
    · rw [hgrant] at hnew
      cases List.mem_singleton.mp hnew
      exact Readings.ordered_of_pairwise hordered

/-- With a cooldown no two payouts hash the same bytes. -/
theorem nodup_txHash (hclock : Clocked calls) (hfits : CooldownFits config calls)
    (hcooldown : 0 < config.cooldownSecs)
    (hcf : ∀ g ∈ grants C config .new calls, ∀ g' ∈ grants C config .new calls,
      g.txHash C config = g'.txHash C config →
        payoutBytes config g.req.address config.amount g.t.hash
          = payoutBytes config g'.req.address config.amount g'.t.hash) :
    ((grants C config .new calls).map (Grant.txHash C config)).Nodup := by
  refine List.pairwise_map.mpr (List.Pairwise.imp_of_mem ?_ (spaced_of_run hclock hfits))
  intro g g' hg hg' hspaced heq
  obtain ⟨haddress, htime⟩ := payoutBytes_inj (hcf g hg g' hg' heq)
  have hle := UInt64.le_iff_toNat_le.mp (grants_ordered hclock g hg).hash_le_addressNow
  have hle' := UInt64.le_iff_toNat_le.mp (grants_ordered hclock g' hg').address_le_hash
  have hapart := hspaced haddress
  have hpos := UInt64.lt_iff_toNat_lt.mp hcooldown
  have hzero : (0 : UInt64).toNat = 0 := rfl
  rw [htime] at hle
  omega

end Call

/-- The queue is what is owed: as long as no two payouts have one hash, it shows every payout
that no later call confirmed, in order, and no other. -/
theorem pending_eq_owed
    (hnodup : ((Call.grants C config .new calls).map (Grant.txHash C config)).Nodup) :
    (Call.run C config .new calls).getPendingTxs = owed C config .new [] calls := by
  induction calls using List.reverseRecOn with
  | nil => rfl
  | append_singleton calls call ih =>
    rw [Call.grants_snoc, List.map_append] at hnodup
    have hprev := hnodup.of_append_left
    rw [Call.run_snoc, owed_snoc, ← ih hprev]
    exact call.pending_apply ((Call.queue_sublist C config calls).nodup hprev)

/-- The first payout is confirmed, the second waits. -/
theorem pending_eq_owed_sample :
    (Call.run payoutCrypto .withoutCaptcha .new sampleCalls).getPendingTxs
        = [H256.ofNatBE 0x1830bf6e96ac33944aa1a4e94ebdfff521264ad14e1076a98681bef208bbfc3d] ∧
    (Call.run payoutCrypto .withoutCaptcha .new sampleCalls).getPendingTxs
      = owed payoutCrypto .withoutCaptcha .new [] sampleCalls :=
  ⟨by decide +kernel, pending_eq_owed (Call.nodup_txHash sampleCalls_clocked sampleCalls_fits
    (by decide) (by decide +kernel))⟩

end Pyrax.Faucet
