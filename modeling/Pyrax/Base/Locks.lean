import Mathlib.Data.Multiset.Fintype
import Mathlib.Logic.Hydra
import Mathlib.Logic.Relation

/-!
# Calls that share reader-writer locks

A call is a `Program` over the locks `L` and the shared data `S`: it takes and gives
back locks, looks at the data and changes it. Several calls run at once, one step of
one call at a time, in any order (`Step`). The locks are not reentrant: a call is
refused a lock that it holds itself, as if another held it. Where the locks are
`fair`, a reader also waits behind whoever waits to write.

Alone, a call gets done unless it waits for itself, and leaves what `Program.alone`
computes (`reaches_done_iff`).

A state is deadlocked if some call is not done and all that are not done are
blocked. Two rules decide. If every call takes its locks in the order of one rank,
no state that is reached is deadlocked (`deadlockFree_of_ordered`); the rule knows an
invariant of the data, for calls that take their locks depending on it. If some calls
are reached that wait for each other, a deadlock is reached, whoever else is there
(`not_deadlockFree_of_jam`): the jam stays, and the others run out of steps.
-/

namespace Pyrax.Base.Locks

inductive Mode where
  | read
  | write
  deriving DecidableEq

/-- What is left of a call. -/
inductive Program (L S : Type) where
  | done
  | acquire (l : L) (m : Mode) (next : Program L S)
  | release (l : L) (m : Mode) (next : Program L S)
  | look (next : S → Program L S)
  | update (f : S → S) (next : Program L S)

/-- A call under way, with the locks it holds, the last one taken first. -/
structure Thread (L S : Type) where
  program : Program L S
  held : List (L × Mode)

structure Config (L S : Type) where
  data : S
  threads : Multiset (Thread L S)

variable {L S : Type} {fair : Bool} {c c' : Config L S} {t : Thread L S} {l : L} {m : Mode}

namespace Program

/-- Read what one lock guards, and give the lock back. -/
def peek (l : L) (next : S → Program L S) : Program L S :=
  acquire l .read (look fun s => release l .read (next s))

/-- Change what one lock guards, and give the lock back. -/
def poke (l : L) (f : S → S) (next : Program L S) : Program L S :=
  acquire l .write (update f (release l .write next))

end Program

def Thread.WaitsToWrite (t : Thread L S) (l : L) : Prop :=
  ∃ next, t.program = .acquire l .write next

/-- A lock is granted to a call that holds `held` beside the calls `rest`. -/
def Granted (fair : Bool) (held : List (L × Mode)) (rest : Multiset (Thread L S)) (l : L) :
    Mode → Prop
  | .read => (l, .write) ∉ held ∧
      ∀ t ∈ rest, (l, .write) ∉ t.held ∧ (fair = true → ¬ t.WaitsToWrite l)
  | .write => ∀ m, (l, m) ∉ held ∧ ∀ t ∈ rest, (l, m) ∉ t.held

/-- One step of one call. -/
inductive Step [DecidableEq L] (fair : Bool) : Config L S → Config L S → Prop where
  | acquire {s : S} {l : L} {m : Mode} {next : Program L S} {held : List (L × Mode)}
      {rest : Multiset (Thread L S)} (h : Granted fair held rest l m) :
      Step fair ⟨s, ⟨.acquire l m next, held⟩ ::ₘ rest⟩ ⟨s, ⟨next, (l, m) :: held⟩ ::ₘ rest⟩
  | release {s : S} {l : L} {m : Mode} {next : Program L S} {held : List (L × Mode)}
      {rest : Multiset (Thread L S)} :
      Step fair ⟨s, ⟨.release l m next, held⟩ ::ₘ rest⟩
        ⟨s, ⟨next, held.erase (l, m)⟩ ::ₘ rest⟩
  | look {s : S} {next : S → Program L S} {held : List (L × Mode)}
      {rest : Multiset (Thread L S)} :
      Step fair ⟨s, ⟨.look next, held⟩ ::ₘ rest⟩ ⟨s, ⟨next s, held⟩ ::ₘ rest⟩
  | update {s : S} {f : S → S} {next : Program L S} {held : List (L × Mode)}
      {rest : Multiset (Thread L S)} :
      Step fair ⟨s, ⟨.update f next, held⟩ ::ₘ rest⟩ ⟨f s, ⟨next, held⟩ ::ₘ rest⟩

def Reaches [DecidableEq L] (fair : Bool) : Config L S → Config L S → Prop :=
  Relation.ReflTransGen (Step fair)

/-- The call waits for a lock that is not granted. -/
def Thread.Blocked (fair : Bool) (t : Thread L S) (rest : Multiset (Thread L S)) : Prop :=
  ∃ l m next, t.program = .acquire l m next ∧ ¬ Granted fair t.held rest l m

/-- Some call is not done, and all that are not done are blocked. -/
structure Deadlocked (fair : Bool) (c : Config L S) : Prop where
  unfinished : ∃ t ∈ c.threads, t.program ≠ .done
  blocked : ∀ t rest, c.threads = t ::ₘ rest → t.program ≠ .done → t.Blocked fair rest

/-- No state that is reached is deadlocked. -/
def DeadlockFree [DecidableEq L] (fair : Bool) (c : Config L S) : Prop :=
  ∀ c', Reaches fair c c' → ¬ Deadlocked fair c'

/-! ## One call by itself -/

section Alone

variable [DecidableEq L] {s : S} {next : Program L S} {held : List (L × Mode)}
  {rest : Multiset (Thread L S)}

/-- The data a call leaves if no other call is there, unless it waits for itself. -/
def Program.alone : Program L S → List (L × Mode) → S → Option S
  | .done, _, s => some s
  | .acquire l .read next, held, s =>
    if (l, .write) ∈ held then none else next.alone ((l, .read) :: held) s
  | .acquire l .write next, held, s =>
    if (l, .read) ∈ held ∨ (l, .write) ∈ held then none else next.alone ((l, .write) :: held) s
  | .release l m next, held, s => next.alone (held.erase (l, m)) s
  | .look next, held, s => (next s).alone held s
  | .update f next, held, s => next.alone held (f s)

theorem Program.alone_peek (l : L) (next : S → Program L S) (hheld : (l, .write) ∉ held) (s : S) :
    (peek l next).alone held s = (next s).alone held s := by
  rw [peek, alone, if_neg hheld, alone, alone, List.erase_cons_head]

theorem Program.alone_poke (l : L) (f : S → S) (next : Program L S) (hheld : ∀ m, (l, m) ∉ held)
    (s : S) : (poke l f next).alone held s = next.alone held (f s) := by
  rw [poke, alone, if_neg (not_or.mpr ⟨hheld _, hheld _⟩), alone, alone, List.erase_cons_head]

/-- The other calls hold no lock. -/
def Quiet (rest : Multiset (Thread L S)) : Prop := ∀ t ∈ rest, t.held = []

omit [DecidableEq L] in
theorem granted_read (hquiet : Quiet rest) (hwaits : ∀ t ∈ rest, ¬ t.WaitsToWrite l)
    (hheld : (l, .write) ∉ held) : Granted fair held rest l .read := by
  refine ⟨hheld, fun t ht => ⟨?_, fun _ => hwaits t ht⟩⟩
  rw [hquiet t ht]
  exact List.not_mem_nil

omit [DecidableEq L] in
theorem granted_write (hquiet : Quiet rest) (hheld : ∀ m, (l, m) ∉ held) :
    Granted fair held rest l .write := by
  refine fun m => ⟨hheld m, fun t ht => ?_⟩
  rw [hquiet t ht]
  exact List.not_mem_nil

theorem reaches_peek {next : S → Program L S} (hquiet : Quiet rest)
    (hwaits : ∀ t ∈ rest, ¬ t.WaitsToWrite l) (hheld : (l, .write) ∉ held) :
    Reaches fair ⟨s, ⟨.peek l next, held⟩ ::ₘ rest⟩ ⟨s, ⟨next s, held⟩ ::ₘ rest⟩ := by
  refine .head (.acquire (granted_read hquiet hwaits hheld)) (.head .look (.head .release ?_))
  rw [List.erase_cons_head]

theorem reaches_poke {f : S → S} (hquiet : Quiet rest) (hheld : ∀ m, (l, m) ∉ held) :
    Reaches fair ⟨s, ⟨.poke l f next, held⟩ ::ₘ rest⟩ ⟨f s, ⟨next, held⟩ ::ₘ rest⟩ := by
  refine .head (.acquire (granted_write hquiet hheld)) (.head .update (.head .release ?_))
  rw [List.erase_cons_head]

/-- No guard of the call's own is in the way. -/
def Free (held : List (L × Mode)) (l : L) : Mode → Prop
  | .read => (l, .write) ∉ held
  | .write => ∀ m, (l, m) ∉ held

/-- What a call by itself does next. -/
def Program.After (p : Program L S) (held : List (L × Mode)) (s : S) (c : Config L S) : Prop :=
  match p with
  | .done => False
  | .acquire l m next => Free held l m ∧ c = ⟨s, {⟨next, (l, m) :: held⟩}⟩
  | .release l m next => c = ⟨s, {⟨next, held.erase (l, m)⟩}⟩
  | .look next => c = ⟨s, {⟨next s, held⟩}⟩
  | .update f next => c = ⟨f s, {⟨next, held⟩}⟩

omit [DecidableEq L] in
theorem granted_alone_iff :
    Granted fair held (0 : Multiset (Thread L S)) l m ↔ Free held l m := by
  cases m <;> simp [Granted, Free]

theorem step_alone_iff {p : Program L S} :
    Step fair ⟨s, {⟨p, held⟩}⟩ c ↔ p.After held s c := by
  constructor
  · intro h
    generalize hthreads : ({⟨p, held⟩} : Multiset (Thread L S)) = threads at h
    cases h with
    | acquire hgranted =>
      obtain ⟨hthread, rfl⟩ := (Multiset.singleton_eq_cons_iff _).mp hthreads
      cases hthread
      exact ⟨granted_alone_iff.mp hgranted, rfl⟩
    | release =>
      obtain ⟨hthread, rfl⟩ := (Multiset.singleton_eq_cons_iff _).mp hthreads
      cases hthread
      rfl
    | look =>
      obtain ⟨hthread, rfl⟩ := (Multiset.singleton_eq_cons_iff _).mp hthreads
      cases hthread
      rfl
    | update =>
      obtain ⟨hthread, rfl⟩ := (Multiset.singleton_eq_cons_iff _).mp hthreads
      cases hthread
      rfl
  · intro h
    cases p with
    | done => exact h.elim
    | acquire l m next =>
      obtain ⟨hgranted, rfl⟩ := h
      exact .acquire (granted_alone_iff.mpr hgranted)
    | release l m next =>
      obtain rfl := h
      exact .release
    | look next =>
      obtain rfl := h
      exact .look
    | update f next =>
      obtain rfl := h
      exact .update

/-- A call by itself gets done exactly when it never waits for itself. -/
theorem reaches_done_iff {p : Program L S} {s' : S} :
    (∃ held', Reaches fair ⟨s, {⟨p, held⟩}⟩ ⟨s', {⟨.done, held'⟩}⟩) ↔ p.alone held s = some s' := by
  -- the first step is the program's, the rest is the rest of it
  have hfirst : ∀ {p q : Program L S} {held held₁ : List (L × Mode)} {s s₁ : S}, p ≠ .done →
      (∀ c, p.After held s c ↔ c = ⟨s₁, {⟨q, held₁⟩}⟩) →
      ((∃ held', Reaches fair ⟨s, {⟨p, held⟩}⟩ ⟨s', {⟨.done, held'⟩}⟩) ↔
        ∃ held', Reaches fair ⟨s₁, {⟨q, held₁⟩}⟩ ⟨s', {⟨.done, held'⟩}⟩) := by
    intro p q held held₁ s s₁ hne hafter
    refine exists_congr fun held' => ?_
    constructor
    · intro h
      rcases h.cases_head with heq | ⟨c, hstep, hrest⟩
      · rw [Config.mk.injEq, Multiset.singleton_inj, Thread.mk.injEq] at heq
        exact absurd heq.2.1 hne
      · rwa [(hafter c).mp (step_alone_iff.mp hstep)] at hrest
    · intro h
      exact .head (step_alone_iff.mpr ((hafter _).mpr rfl)) h
  have hstuck : ∀ {p : Program L S} {held : List (L × Mode)} {s : S}, p ≠ .done →
      (∀ c, ¬ p.After held s c) →
      ¬ ∃ held', Reaches fair ⟨s, {⟨p, held⟩}⟩ ⟨s', {⟨.done, held'⟩}⟩ := by
    rintro p held s hne hafter ⟨held', h⟩
    rcases h.cases_head with heq | ⟨c, hstep, -⟩
    · rw [Config.mk.injEq, Multiset.singleton_inj, Thread.mk.injEq] at heq
      exact hne heq.2.1
    · exact hafter c (step_alone_iff.mp hstep)
  induction p generalizing held s with
  | done =>
    rw [Program.alone, Option.some.injEq]
    constructor
    · rintro ⟨held', h⟩
      rcases h.cases_head with heq | ⟨c, hstep, -⟩
      · exact congrArg Config.data heq
      · exact (step_alone_iff.mp hstep).elim
    · rintro rfl
      exact ⟨held, .refl⟩
  | acquire l m next ih =>
    by_cases hfree : Free held l m
    · have hafter : ∀ c, (Program.acquire l m next).After held s c
          ↔ c = ⟨s, {⟨next, (l, m) :: held⟩}⟩ := fun c => and_iff_right hfree
      refine (hfirst (by simp) hafter).trans (ih.trans ?_)
      cases m with
      | read => rw [Program.alone, if_neg hfree]
      | write => rw [Program.alone, if_neg (not_or.mpr ⟨hfree _, hfree _⟩)]
    · refine iff_of_false (hstuck (by simp) fun c h => hfree h.1) ?_
      cases m with
      | read =>
        rw [Program.alone, if_pos (not_not.mp hfree)]
        simp
      | write =>
        rw [Program.alone, if_pos]
        · simp
        · by_contra hnone
          refine hfree fun m => ?_
          cases m with
          | read => exact (not_or.mp hnone).1
          | write => exact (not_or.mp hnone).2
  | release l m next ih =>
    have hafter : ∀ c, (Program.release l m next).After held s c
        ↔ c = ⟨s, {⟨next, held.erase (l, m)⟩}⟩ := fun _ => Iff.rfl
    exact (hfirst (by simp) hafter).trans ih
  | look next ih =>
    have hafter : ∀ c, (Program.look next).After held s c ↔ c = ⟨s, {⟨next s, held⟩}⟩ :=
      fun _ => Iff.rfl
    exact (hfirst (by simp) hafter).trans (ih s)
  | update f next ih =>
    have hafter : ∀ c, (Program.update f next).After held s c ↔ c = ⟨f s, {⟨next, held⟩}⟩ :=
      fun _ => Iff.rfl
    exact (hfirst (by simp) hafter).trans ih

end Alone

/-! ## Locks taken in order -/

section Order

variable [DecidableEq L] {rank : L → Nat} {I : S → Prop}

/-- The program takes locks above those it holds only, and gives all back, as long as
the data satisfies `I`, which it keeps. -/
def Program.Ordered (rank : L → Nat) (I : S → Prop) :
    List (L × Mode) → Program L S → Prop
  | held, .done => held = []
  | held, .acquire l m next => (∀ h ∈ held, rank h.1 < rank l) ∧ next.Ordered rank I ((l, m) :: held)
  | held, .release l m next => next.Ordered rank I (held.erase (l, m))
  | held, .look next => ∀ s, I s → (next s).Ordered rank I held
  | held, .update f next => (∀ s, I s → I (f s)) ∧ next.Ordered rank I held

theorem Program.ordered_peek {held : List (L × Mode)} {next : S → Program L S}
    (habove : ∀ h ∈ held, rank h.1 < rank l) (hnext : ∀ s, I s → (next s).Ordered rank I held) :
    (peek l next).Ordered rank I held := by
  refine ⟨habove, fun s hs => ?_⟩
  rw [Ordered, List.erase_cons_head]
  exact hnext s hs

theorem Program.ordered_poke {held : List (L × Mode)} {f : S → S} {next : Program L S}
    (habove : ∀ h ∈ held, rank h.1 < rank l) (hkeeps : ∀ s, I s → I (f s))
    (hnext : next.Ordered rank I held) : (poke l f next).Ordered rank I held := by
  refine ⟨habove, hkeeps, ?_⟩
  rw [Ordered, List.erase_cons_head]
  exact hnext

/-- The data satisfies `I`, and what is left of every call is ordered. -/
structure InOrder (rank : L → Nat) (I : S → Prop) (c : Config L S) : Prop where
  data : I c.data
  ordered : ∀ t ∈ c.threads, t.program.Ordered rank I t.held

/-- **One step** keeps the calls in order. -/
theorem InOrder.step (h : InOrder rank I c) (hstep : Step fair c c') : InOrder rank I c' := by
  have hrest : ∀ {p : Thread L S} {rest : Multiset (Thread L S)}, c.threads = p ::ₘ rest →
      ∀ t ∈ rest, t.program.Ordered rank I t.held :=
    fun heq t ht => h.ordered t (heq ▸ Multiset.mem_cons_of_mem ht)
  cases hstep with
  | acquire _ =>
    have hthis := h.ordered _ (Multiset.mem_cons_self _ _)
    exact ⟨h.data, Multiset.forall_mem_cons.mpr ⟨hthis.2, hrest rfl⟩⟩
  | release =>
    have hthis := h.ordered _ (Multiset.mem_cons_self _ _)
    exact ⟨h.data, Multiset.forall_mem_cons.mpr ⟨hthis, hrest rfl⟩⟩
  | look =>
    have hthis := h.ordered _ (Multiset.mem_cons_self _ _)
    exact ⟨h.data, Multiset.forall_mem_cons.mpr ⟨hthis _ h.data, hrest rfl⟩⟩
  | update =>
    have hthis := h.ordered _ (Multiset.mem_cons_self _ _)
    exact ⟨hthis.1 _ h.data, Multiset.forall_mem_cons.mpr ⟨hthis.2, hrest rfl⟩⟩

/-- Whoever holds a lock and is blocked waits for a higher one. -/
theorem exists_higher (h : InOrder rank I c) (hdead : Deadlocked fair c) (ht : t ∈ c.threads)
    (hheld : (l, m) ∈ t.held) :
    ∃ l' m' next, t.program = .acquire l' m' next ∧ rank l < rank l' := by
  have hordered := h.ordered t ht
  have hunfinished : t.program ≠ .done := by
    intro hdone
    rw [hdone] at hordered
    rw [show t.held = [] from hordered] at hheld
    cases hheld
  obtain ⟨rest, hrest⟩ := Multiset.exists_cons_of_mem ht
  obtain ⟨l', m', next, hprogram, _⟩ := hdead.blocked t rest hrest hunfinished
  rw [hprogram] at hordered
  exact ⟨l', m', next, hprogram, hordered.1 (l, m) hheld⟩

omit [DecidableEq L] in
/-- A blocked call waits, at last, for one that holds its lock. -/
theorem exists_holder (hdead : Deadlocked fair c) (ht : t ∈ c.threads) {next : Program L S}
    (hprogram : t.program = .acquire l m next) : ∃ h ∈ c.threads, ∃ m', (l, m') ∈ h.held := by
  -- a writer is refused by a holder only
  have hwriter : ∀ t ∈ c.threads, t.WaitsToWrite l → ∃ h ∈ c.threads, ∃ m', (l, m') ∈ h.held := by
    intro t ht hwaits
    obtain ⟨next, hprogram⟩ := hwaits
    obtain ⟨rest, hrest⟩ := Multiset.exists_cons_of_mem ht
    obtain ⟨_, _, _, hblocked, hrefused⟩ :=
      hdead.blocked t rest hrest (by rw [hprogram]; nofun)
    cases hprogram.symm.trans hblocked
    by_contra hnone
    refine hrefused fun m' => ⟨fun hheld => hnone ⟨t, ht, m', hheld⟩, fun h hh hheld => ?_⟩
    exact hnone ⟨h, hrest ▸ Multiset.mem_cons_of_mem hh, m', hheld⟩
  obtain ⟨rest, hrest⟩ := Multiset.exists_cons_of_mem ht
  obtain ⟨_, _, _, hblocked, hrefused⟩ := hdead.blocked t rest hrest (by rw [hprogram]; nofun)
  cases hprogram.symm.trans hblocked
  cases m with
  | write => exact hwriter t ht ⟨next, hprogram⟩
  | read =>
    by_contra hnone
    refine hrefused ⟨fun hheld => hnone ⟨t, ht, .write, hheld⟩, fun h hh => ?_⟩
    have hmem : h ∈ c.threads := hrest ▸ Multiset.mem_cons_of_mem hh
    exact ⟨fun hheld => hnone ⟨h, hmem, .write, hheld⟩, fun _ hwaits => hnone (hwriter h hmem hwaits)⟩

/-- Calls in order are not deadlocked: the one that waits for the highest lock would
wait for one that waits higher. -/
theorem InOrder.not_deadlocked (h : InOrder rank I c) : ¬ Deadlocked fair c := by
  intro hdead
  have hhigher : ∀ t ∈ c.threads, ∀ l m next, t.program = .acquire l m next →
      ∃ t' ∈ c.threads, ∃ l' m' next', t'.program = .acquire l' m' next' ∧ rank l < rank l' := by
    intro t ht l m next hprogram
    obtain ⟨t', ht', m', hheld⟩ := exists_holder hdead ht hprogram
    exact ⟨t', ht', exists_higher h hdead ht' hheld⟩
  obtain ⟨t, ht, hunfinished⟩ := hdead.unfinished
  obtain ⟨rest, hrest⟩ := Multiset.exists_cons_of_mem ht
  obtain ⟨l, m, next, hprogram, _⟩ := hdead.blocked t rest hrest hunfinished
  -- no bound on the ranks waited for, but finitely many calls
  have hunbounded : ∀ n, ∃ t ∈ c.threads, ∃ l m next, t.program = .acquire l m next ∧
      n ≤ rank l := by
    intro n
    induction n with
    | zero => exact ⟨t, ht, l, m, next, hprogram, Nat.zero_le _⟩
    | succ n ih =>
      obtain ⟨t₁, ht₁, l₁, m₁, next₁, hprogram₁, hle⟩ := ih
      obtain ⟨t₂, ht₂, l₂, m₂, next₂, hprogram₂, hlt⟩ := hhigher t₁ ht₁ l₁ m₁ next₁ hprogram₁
      exact ⟨t₂, ht₂, l₂, m₂, next₂, hprogram₂, Nat.lt_of_le_of_lt hle hlt⟩
  let waited : Thread L S → Nat := fun t =>
    match t.program with
    | .acquire l _ _ => rank l
    | _ => 0
  obtain ⟨t₁, ht₁, l₁, m₁, next₁, hprogram₁, hle⟩ := hunbounded ((c.threads.map waited).sum + 1)
  have hbound : waited t₁ ≤ (c.threads.map waited).sum :=
    Multiset.single_le_sum (fun _ _ => Nat.zero_le _) _ (Multiset.mem_map_of_mem _ ht₁)
  have hwaited : waited t₁ = rank l₁ := by
    show (match t₁.program with
      | .acquire l _ _ => rank l
      | _ => 0) = _
    rw [hprogram₁]
  omega

variable (rank) in
/-- **Order.** Calls that take their locks in order do not deadlock. -/
theorem deadlockFree_of_ordered (h : InOrder rank I c) : DeadlockFree fair c := by
  intro c' hreach
  have horder : InOrder rank I c' := by
    induction hreach with
    | refl => exact h
    | tail _ hstep ih => exact ih.step hstep
  exact horder.not_deadlocked

end Order

/-! ## Jams -/

/-- Every call of the group waits for a lock that the group holds against it. -/
def Jam (J : Multiset (Thread L S)) : Prop :=
  ∀ t ∈ J, ∃ l m next, t.program = .acquire l m next ∧
    ∃ h ∈ J, ∃ m', (l, m') ∈ h.held ∧ (m = .write ∨ m' = .write)

section Jam

variable [DecidableEq L] {J others : Multiset (Thread L S)}

/-- What a call is left with after one of its steps. -/
inductive Program.Sub : Program L S → Program L S → Prop where
  | acquire {l : L} {m : Mode} {next : Program L S} : Sub next (.acquire l m next)
  | release {l : L} {m : Mode} {next : Program L S} : Sub next (.release l m next)
  | look {next : S → Program L S} (s : S) : Sub (next s) (.look next)
  | update {f : S → S} {next : Program L S} : Sub next (.update f next)

omit [DecidableEq L] in
theorem Program.Sub.wf : WellFounded (Program.Sub (L := L) (S := S)) := by
  refine ⟨fun p => ?_⟩
  induction p with
  | done => exact ⟨_, nofun⟩
  | acquire l m next ih =>
    refine ⟨_, fun p hp => ?_⟩
    cases hp
    exact ih
  | release l m next ih =>
    refine ⟨_, fun p hp => ?_⟩
    cases hp
    exact ih
  | look next ih =>
    refine ⟨_, fun p hp => ?_⟩
    cases hp with
    | look s => exact ih s
  | update f next ih =>
    refine ⟨_, fun p hp => ?_⟩
    cases hp
    exact ih

/-- A step moves one call on and leaves the others. -/
theorem Step.cases_thread (hstep : Step fair c c') :
    ∃ t t' rest, c.threads = t ::ₘ rest ∧ c'.threads = t' ::ₘ rest ∧ t'.program.Sub t.program ∧
      ∀ l m next, t.program = .acquire l m next → Granted fair t.held rest l m := by
  cases hstep with
  | acquire hgranted =>
    refine ⟨_, _, _, rfl, rfl, .acquire, fun l m next hprogram => ?_⟩
    cases hprogram
    exact hgranted
  | release => exact ⟨_, _, _, rfl, rfl, .release, nofun⟩
  | look => exact ⟨_, _, _, rfl, rfl, .look _, nofun⟩
  | update => exact ⟨_, _, _, rfl, rfl, .update, nofun⟩

/-- From every state one is reached where no call can move. -/
theorem exists_stuck (fair : Bool) (c : Config L S) :
    ∃ c', Reaches fair c c' ∧ ∀ c'', ¬ Step fair c' c'' := by
  have hwf := InvImage.wf (fun c : Config L S => c.threads.map Thread.program)
    Program.Sub.wf.cutExpand
  induction c using hwf.induction with
  | _ c ih =>
    by_cases hmoves : ∃ c₁, Step fair c c₁
    · obtain ⟨c₁, hstep⟩ := hmoves
      obtain ⟨t, t', rest, hthreads, hthreads', hsub, _⟩ := hstep.cases_thread
      have hless : Relation.CutExpand Program.Sub (c₁.threads.map Thread.program)
          (c.threads.map Thread.program) := by
        rw [hthreads, hthreads', Multiset.map_cons, Multiset.map_cons, ← Multiset.singleton_add,
          ← Multiset.singleton_add]
        exact Relation.cutExpand_single_add hsub _
      obtain ⟨c', hreach, hlast⟩ := ih c₁ hless
      exact ⟨c', .head hstep hreach, hlast⟩
    · exact ⟨c, .refl, fun c₁ hstep => hmoves ⟨c₁, hstep⟩⟩

/-- Where no call can move, whoever is not done is blocked. -/
theorem blocked_of_stuck (hstuck : ∀ c', ¬ Step fair c c') {rest : Multiset (Thread L S)}
    (hthreads : c.threads = t ::ₘ rest) (hunfinished : t.program ≠ .done) : t.Blocked fair rest := by
  obtain ⟨s, threads⟩ := c
  obtain ⟨program, held⟩ := t
  cases hthreads
  cases program with
  | done => exact absurd rfl hunfinished
  | acquire l m next =>
    exact ⟨l, m, next, rfl, fun hgranted => hstuck _ (.acquire hgranted)⟩
  | release l m next => exact absurd .release (hstuck _)
  | look next => exact absurd .look (hstuck _)
  | update f next => exact absurd .update (hstuck _)

omit [DecidableEq L] in
variable (fair) in
/-- No call of a jam is granted what it waits for. -/
theorem Jam.not_granted (hjam : Jam J) (ht : t ∈ J) {rest : Multiset (Thread L S)}
    (hthreads : J + others = t ::ₘ rest) :
    ∃ l m next, t.program = .acquire l m next ∧ ¬ Granted fair t.held rest l m := by
  obtain ⟨l, m, next, hprogram, h, hh, m', hheld, hconflict⟩ := hjam t ht
  refine ⟨l, m, next, hprogram, fun hgranted => ?_⟩
  have hmem : h = t ∨ h ∈ rest := by
    rw [← Multiset.mem_cons, ← hthreads]
    exact Multiset.mem_add.mpr (.inl hh)
  cases m with
  | write =>
    rcases hmem with rfl | hrest
    · exact (hgranted m').1 hheld
    · exact (hgranted m').2 h hrest hheld
  | read =>
    rw [hconflict.resolve_left nofun] at hheld
    rcases hmem with rfl | hrest
    · exact hgranted.1 hheld
    · exact (hgranted.2 h hrest).1 hheld

/-- **One step** leaves a jam where it is. -/
theorem Jam.step (hjam : Jam J) (hstep : Step fair c c') (hthreads : c.threads = J + others) :
    ∃ others', c'.threads = J + others' := by
  obtain ⟨t, t', rest, hbefore, hafter, _, hgranted⟩ := hstep.cases_thread
  have hsplit : J + others = t ::ₘ rest := hthreads.symm.trans hbefore
  have hother : t ∉ J := by
    intro ht
    obtain ⟨l, m, next, hprogram, hrefused⟩ := hjam.not_granted fair ht hsplit
    exact hrefused (hgranted l m next hprogram)
  have ht : t ∈ others := by
    have hmem : t ∈ J + others := hsplit ▸ Multiset.mem_cons_self t rest
    exact (Multiset.mem_add.mp hmem).resolve_left hother
  obtain ⟨remaining, rfl⟩ := Multiset.exists_cons_of_mem ht
  have hrest : rest = J + remaining := by
    rw [Multiset.add_cons] at hsplit
    exact ((Multiset.cons_inj_right t).mp hsplit).symm
  refine ⟨t' ::ₘ remaining, ?_⟩
  rw [hafter, hrest, Multiset.add_cons]

/-- **Jam.** Where a jam is reached, a deadlock is reached. -/
theorem not_deadlockFree_of_jam (hreach : Reaches fair c c') (hjam : Jam J) (hne : J ≠ 0)
    (hthreads : c'.threads = J + others) : ¬ DeadlockFree fair c := by
  intro hfree
  obtain ⟨c₁, hreach₁, hstuck⟩ := exists_stuck fair c'
  have hkept : ∃ others', c₁.threads = J + others' := by
    clear hstuck
    induction hreach₁ with
    | refl => exact ⟨others, hthreads⟩
    | tail _ hstep ih =>
      obtain ⟨others', hthreads'⟩ := ih
      exact hjam.step hstep hthreads'
  obtain ⟨others', hthreads'⟩ := hkept
  obtain ⟨t, ht⟩ := Multiset.exists_mem_of_ne_zero hne
  obtain ⟨l, m, next, hprogram, _⟩ := hjam t ht
  refine hfree c₁ (hreach.trans hreach₁) ⟨⟨t, ?_, ?_⟩, fun t rest hrest hunfinished => ?_⟩
  · rw [hthreads']
    exact Multiset.mem_add.mpr (.inl ht)
  · rw [hprogram]
    nofun
  · exact blocked_of_stuck hstuck hrest hunfinished

theorem DeadlockFree.of_reaches (h : DeadlockFree fair c) (hreach : Reaches fair c c') :
    DeadlockFree fair c' :=
  fun c₁ hreach₁ => h c₁ (hreach.trans hreach₁)

/-- A call that waits to write what it holds itself. -/
theorem not_deadlockFree_of_self {s : S} {next : Program L S} {rest : Multiset (Thread L S)}
    (hprogram : t.program = .acquire l .write next) (hheld : (l, m) ∈ t.held) :
    ¬ DeadlockFree fair ⟨s, t ::ₘ rest⟩ := by
  refine not_deadlockFree_of_jam .refl (J := {t}) ?_
    (Multiset.singleton_ne_zero _) (Multiset.singleton_add _ _).symm
  intro t' ht'
  cases Multiset.mem_singleton.mp ht'
  exact ⟨l, .write, next, hprogram, t, Multiset.mem_singleton_self t, m, hheld, .inl rfl⟩

/-- Two calls, each of which waits for what the other has locked for writing. -/
theorem not_deadlockFree_of_cross {a b : Thread L S} {s : S} {la lb : L} {ma mb : Mode}
    {nexta nextb : Program L S} {rest : Multiset (Thread L S)}
    (ha : a.program = .acquire la ma nexta) (hb : b.program = .acquire lb mb nextb)
    (hla : (la, .write) ∈ b.held) (hlb : (lb, .write) ∈ a.held) :
    ¬ DeadlockFree fair ⟨s, a ::ₘ b ::ₘ rest⟩ := by
  have hthreads : a ::ₘ b ::ₘ rest = {a, b} + rest := by
    rw [Multiset.insert_eq_cons, Multiset.cons_add, Multiset.singleton_add]
  refine not_deadlockFree_of_jam .refl (J := {a, b}) ?_ ?_ hthreads
  · intro t ht
    rw [Multiset.insert_eq_cons, Multiset.mem_cons, Multiset.mem_singleton] at ht
    rcases ht with rfl | rfl
    · exact ⟨la, ma, nexta, ha, b, by simp, .write, hla, .inr rfl⟩
    · exact ⟨lb, mb, nextb, hb, a, by simp, .write, hlb, .inr rfl⟩
  · rw [Multiset.insert_eq_cons]
    exact Multiset.cons_ne_zero

end Jam

end Pyrax.Base.Locks
