/-
Module: MtAsyncio.Proofs.WorkStranded
Purpose: When the injector holds a handle, somebody is going to look at it.
  The only way to lose that is a wake elided because of a token whose holder
  has already run off the end of `wake_idle`'s flag loop: the token is given
  back without a re-scan, and the handle is stranded beside parked workers.
Trusted boundary: none
Main exports: NoStrandedHandle, WakeCovered, Attended, Watched,
  no_stranded_handle, stranded_handle
-/
import Mathlib.Algebra.BigOperators.Group.Finset.Piecewise
import MtAsyncio.Proofs.WorkTokens

namespace MtAsyncio.WorkSchedule

open scoped BigOperators
open Lib (Machine)

variable {n m : Nat} {H : Type}

/-! ## The property -/

/-- Every worker is blocked in `park()` with no token to take. -/
def AllParked (s : State n m H) : Prop :=
  ∀ i, (s.worker i).pc = .park ∧ s.shared.parkToken i = false

/-- No thread outside the workers is inside a push. -/
def NoPush (s : State n m H) : Prop :=
  ∀ p, s.producer p = none

def NoStrandedHandle (s : State n m H) : Prop :=
  s.shared.workStopping = false → AllParked s → NoPush s →
    s.shared.injector = [] ∧ ∀ i, s.shared.deque i = []

/-- The worker parks without looking at the injector again, unless it is
unparked. -/
def Worker.sleepy (w : Worker n H) : Bool :=
  match w.pc with
  | .findWork true (.stealer _) | .checkStopping true => !w.isSpeculating
  | .park => true
  | _ => false

/-- A scan of the injector is still ahead of worker `i`. -/
def ScanAhead (s : State n m H) (i : Fin n) : Prop :=
  s.shared.parkToken i = true ∨ (s.worker i).sleepy = false

/-- The threads that found no idle flag and are about to give their token
back. -/
def givingBack (s : State n m H) : Finset (Fin m) :=
  Finset.univ.filter fun p => s.producer p = some .giveBack

/-- The step is an `unpark_one` that skips its wake because a token is out. -/
def ElidesWake (s : State n m H) (a : Act n m H) : Prop :=
  ∃ p, a = .producer p ∧ s.producer p = some (.takeToken false) ∧ s.shared.speculation ≠ 0

/-- A wake is elided only while a worker has a scan of the injector ahead of
it, or a token is out that is not just being given back. -/
def WakeCovered (s : State n m H) (a : Act n m H) : Prop :=
  ElidesWake s a →
    (∃ i, ScanAhead s i) ∨ (givingBack s).card < s.shared.speculation

/-! ## Claims in flight -/

/-- The unpark call a thread is inside of. -/
def State.call (s : State n m H) : Fin n ⊕ Fin m → Option (Unparking n)
  | .inl i => (s.worker i).pc.unparking
  | .inr p => s.producer p

/-- The call has claimed the flag of worker `i` and not unparked it yet. -/
def Unparking.Claims (u : Unparking n) (i : Fin n) : Prop :=
  u = .subIdleCount i ∨ u = .unparkWorker i

/-- The counters at which a worker relies on its flag to be woken. -/
def WorkerPc.listening : WorkerPc n H → Bool
  | .addCount | .findWork true _ | .checkStopping true | .giveUp | .rescan | .park => true
  | _ => false

/-- A listening worker whose flag was claimed has its unpark token or gets it
from the thread that claimed it. -/
def ClaimsInFlight (s : State n m H) : Prop :=
  ∀ i, (s.worker i).pc.listening = true → s.shared.idleFlag i = false →
    s.shared.parkToken i = false → ∃ t u, s.call t = some u ∧ u.Claims i

/-- Somebody is going to look at the injector: a worker, or a thread that will
wake one. -/
def Attended (s : State n m H) : Prop :=
  (∃ i, ScanAhead s i) ∨ ∃ p u, s.producer p = some u ∧ u ≠ .giveBack

structure Watched (s : State n m H) : Prop where
  claims : ClaimsInFlight s
  attended : s.shared.injector ≠ [] → Attended s

theorem Worker.Calls.not_sleepy {w : Worker n H} {u : Unparking n}
    (calls : w.pc.unparking = some u) : w.sleepy = false := by
  obtain ⟨pc, speculating⟩ := w
  cases pc <;> first | rfl | cases calls

theorem Worker.listening_of_sleepy {w : Worker n H} (sleepy : w.sleepy = true) :
    w.pc.listening = true := by
  obtain ⟨pc, speculating⟩ := w
  cases pc with
  | findWork second scan => cases second <;> cases scan <;> first | rfl | cases sleepy
  | checkStopping second => cases second <;> first | rfl | cases sleepy
  | _ => first | rfl | cases sleepy

/-- A lowered flag means that its worker, or the thread that claimed it, is up. -/
theorem attended_of_lowered {s : State n m H} (claims : ClaimsInFlight s) {i : Fin n}
    (lowered : s.shared.idleFlag i = false) :
    (∃ k, ScanAhead s k) ∨ ∃ p u, s.producer p = some u ∧ u.Claims i := by
  by_cases ahead : ScanAhead s i
  · exact .inl ⟨i, ahead⟩
  · simp only [ScanAhead, not_or, Bool.not_eq_true, Bool.not_eq_false] at ahead
    obtain ⟨t, u, calls, claim⟩ :=
      claims i (Worker.listening_of_sleepy ahead.2) lowered ahead.1
    cases t with
    | inl k => exact .inl ⟨k, .inr (Worker.Calls.not_sleepy calls)⟩
    | inr p => exact .inr ⟨p, u, calls, claim⟩

/-! ## Steps of an unpark call -/

/-- A step of an unpark call raises unpark tokens and lowers none. -/
theorem Unparking.step_parkToken {g : Shared n H} (u : Unparking n) {i : Fin n}
    (token : g.parkToken i = true) : (u.step g).1.parkToken i = true := by
  cases u with
  | takeToken force =>
      cases force with
      | true => exact token
      | false => by_cases free : g.speculation = 0 <;> simp [Unparking.step, free, token]
  | tryFlag j => by_cases raised : g.idleFlag j = true <;> simp [Unparking.step, raised, token]
  | unparkWorker j => by_cases same : i = j <;> simp [Unparking.step, Function.update, same, token]
  | _ => exact token

/-- A step of an unpark call keeps every claim in flight until its worker has
the token. -/
theorem claims_unpark {s s' : State n m H} (claims : ClaimsInFlight s)
    {t : Fin n ⊕ Fin m} {u : Unparking n} (calls : s.call t = some u)
    (shared : s'.shared = (u.step s.shared).1)
    (others : ∀ t', t' ≠ t → s'.call t' = s.call t')
    (next : s'.call t = (u.step s.shared).2)
    (listening : ∀ i, (s'.worker i).pc.listening = true → (s.worker i).pc.listening = true) :
    ClaimsInFlight s' := by
  -- a claim of another thread stays in flight
  have stays : ∀ i, (∃ t' v, s.call t' = some v ∧ v.Claims i) → ¬ u.Claims i →
      ∃ t' v, s'.call t' = some v ∧ v.Claims i := by
    rintro i ⟨t', v, calling, claim⟩ free
    have distinct : t' ≠ t := by
      rintro rfl
      rw [calls] at calling
      cases calling
      exact free claim
    exact ⟨t', v, (others t' distinct).trans calling, claim⟩
  intro i listens lowered untoken
  have listened := listening i listens
  rw [shared] at lowered untoken
  cases u with
  | loadIdleCount force =>
      exact stays i (claims i listened lowered untoken) (by rintro (h | h) <;> cases h)
  | takeToken force =>
      have same : ((Unparking.takeToken force).step s.shared).1.idleFlag i = s.shared.idleFlag i ∧
          ((Unparking.takeToken force).step s.shared).1.parkToken i = s.shared.parkToken i := by
        cases force with
        | true => exact ⟨rfl, rfl⟩
        | false => by_cases free : s.shared.speculation = 0 <;> simp [Unparking.step, free]
      rw [same.1] at lowered
      rw [same.2] at untoken
      exact stays i (claims i listened lowered untoken) (by rintro (h | h) <;> cases h)
  | tryFlag j =>
      by_cases raised : s.shared.idleFlag j = true
      · simp only [Unparking.step, raised, if_true] at lowered untoken next
        by_cases same : i = j
        · subst same
          exact ⟨t, _, next, .inl rfl⟩
        · rw [Function.update_of_ne same] at lowered
          exact stays i (claims i listened lowered untoken) (by rintro (h | h) <;> cases h)
      · simp only [Unparking.step, raised] at lowered untoken
        exact stays i (claims i listened lowered untoken) (by rintro (h | h) <;> cases h)
  | subIdleCount j =>
      by_cases same : i = j
      · subst same
        exact ⟨t, _, next, .inr rfl⟩
      · refine stays i (claims i listened lowered untoken) ?_
        rintro (h | h) <;> cases h
        exact same rfl
  | unparkWorker j =>
      have other : i ≠ j := by
        rintro rfl
        simp [Unparking.step] at untoken
      simp only [Unparking.step, Function.update_of_ne other] at untoken
      refine stays i (claims i listened lowered untoken) ?_
      rintro (h | h) <;> cases h
      exact other rfl
  | giveBack =>
      exact stays i (claims i listened lowered untoken) (by rintro (h | h) <;> cases h)

/-! ## Steps of a worker outside of an unpark call -/

theorem Worker.takeUp_not_listening (w : Worker n H) (h : H) :
    (w.takeUp h).pc.listening = false := by
  obtain ⟨pc, speculating⟩ := w
  cases speculating <;> rfl

theorem Worker.found_not_listening (w : Worker n H) (second : Bool) (h : H) :
    (w.found second h).pc.listening = false := by
  obtain ⟨pc, speculating⟩ := w
  cases second <;> cases speculating <;> rfl

/-- Outside of an unpark call a worker touches no unpark token, except for the
one that wakes it up. -/
theorem workerStep_parkToken {g g' : Shared n H} {i : Fin n} {w w' : Worker n H}
    (taken : workerStep g i w = some (g', w')) (outside : w.pc.unparking = none) :
    g'.parkToken = g.parkToken ∨
      w'.pc = .unparked ∧ g'.parkToken = Function.update g.parkToken i false := by
  obtain ⟨pc, speculating⟩ := w
  cases pc with
  | findWork second scan =>
      cases scan <;> simp only [workerStep] at taken <;>
        (repeat' split at taken) <;> cases taken <;> exact .inl rfl
  | wakeNext h u => cases outside
  | push h u => cases outside
  | checkStopping second => cases second <;> cases taken <;> exact .inl rfl
  | park =>
      simp only [workerStep] at taken
      split at taken <;> cases taken
      exact .inr ⟨rfl, rfl⟩
  | _ =>
      simp only [workerStep] at taken
      first
        | cases taken; done
        | cases taken; exact .inl rfl
        | split at taken <;> cases taken <;> exact .inl rfl

/-- A worker that goes on listening keeps its flag, or has just raised it. -/
theorem workerStep_listening {g g' : Shared n H} {i : Fin n} {w w' : Worker n H}
    (taken : workerStep g i w = some (g', w')) (outside : w.pc.unparking = none)
    (listens : w'.pc.listening = true) :
    w.pc.listening = true ∧ g'.idleFlag i = g.idleFlag i ∨ g'.idleFlag i = true := by
  obtain ⟨pc, speculating⟩ := w
  cases pc with
  | findWork second scan =>
      have stays : ∀ next, (WorkerPc.findWork (n := n) (H := H) second next).listening = true →
          (WorkerPc.findWork (n := n) (H := H) second scan).listening = true := by
        cases second <;> simp [WorkerPc.listening]
      cases scan with
      | own | injector =>
          simp only [workerStep] at taken
          split at taken <;> cases taken
          · rw [Worker.found_not_listening] at listens
            cases listens
          · exact .inl ⟨stays _ listens, rfl⟩
      | stealer k =>
          simp only [workerStep] at taken
          split at taken
          · split at taken
            · cases taken
              exact .inl ⟨stays _ listens, rfl⟩
            · split at taken <;> cases taken
              · rw [Worker.found_not_listening] at listens
                cases listens
              · exact .inl ⟨stays _ listens, rfl⟩
          · cases taken
            cases second with
            | true => exact .inl ⟨rfl, rfl⟩
            | false => cases listens
  | dropToken h =>
      cases taken
      dsimp only at listens
      split at listens <;> cases listens
  | wakeNext h u => cases outside
  | push h u => cases outside
  | run h => cases taken
  | checkStopping second =>
      cases second with
      | true =>
          cases taken
          exact .inl ⟨rfl, rfl⟩
      | false =>
          cases taken
          dsimp only [Worker.goto] at listens
          (repeat' split at listens) <;> cases listens
  | storeFlag =>
      cases taken
      exact .inr (Function.update_self ..)
  | addCount | giveUp =>
      cases taken
      exact .inl ⟨rfl, rfl⟩
  | rescan =>
      simp only [workerStep] at taken
      split at taken <;> cases taken <;> exact .inl ⟨rfl, rfl⟩
  | clearIdle h | park | unparked =>
      simp only [workerStep] at taken
      split at taken <;> cases taken <;> cases listens
  | clearCount h | absorb h =>
      cases taken
      rw [Worker.takeUp_not_listening] at listens
      cases listens
  | unparkedCount | exitToken =>
      cases taken
      cases listens
  | unparkedStopping claimed =>
      cases taken
      cases stopping : g.workStopping <;> simp only [stopping] at listens <;> cases listens
  | exitClear =>
      simp only [workerStep] at taken
      split at taken <;> cases taken
      · cases listens
      · cases speculating <;> cases listens
  | exitCount =>
      cases taken
      cases speculating <;> cases listens
  | exited => cases taken

theorem Worker.takeUp_not_sleepy (w : Worker n H) (h : H) : (w.takeUp h).sleepy = false := by
  obtain ⟨pc, speculating⟩ := w
  cases speculating <;> rfl

theorem Worker.found_not_sleepy (w : Worker n H) (second : Bool) (h : H) :
    (w.found second h).sleepy = false := by
  obtain ⟨pc, speculating⟩ := w
  cases second <;> cases speculating <;> rfl

/-- A worker gets sleepy only by finding the injector empty. -/
theorem workerStep_sleepy {g g' : Shared n H} {i : Fin n} {w w' : Worker n H}
    (taken : workerStep g i w = some (g', w')) (outside : w.pc.unparking = none)
    (running : g.workStopping = false) (awake : w.sleepy = false) :
    w'.sleepy = false ∨ g'.injector = [] := by
  obtain ⟨pc, speculating⟩ := w
  cases pc with
  | findWork second scan =>
      cases scan with
      | own =>
          simp only [workerStep] at taken
          split at taken <;> cases taken
          · exact .inl (Worker.found_not_sleepy ..)
          · exact .inl (by cases second <;> rfl)
      | injector =>
          simp only [workerStep] at taken
          split at taken <;> cases taken
          · exact .inl (Worker.found_not_sleepy ..)
          · exact .inr ‹_›
      | stealer k =>
          simp only [workerStep] at taken
          split at taken
          · split at taken
            · cases taken
              exact .inl (by cases second <;> exact awake)
            · split at taken <;> cases taken
              · exact .inl (Worker.found_not_sleepy ..)
              · exact .inl (by cases second <;> exact awake)
          · cases taken
            exact .inl (by cases second <;> exact awake)
  | dropToken h =>
      cases taken
      exact .inl (by cases g.speculation with
        | zero => rfl
        | succ rest => cases rest <;> rfl)
  | wakeNext h u => cases outside
  | push h u => cases outside
  | run h => cases taken
  | checkStopping second =>
      simp only [workerStep, running] at taken
      cases second <;> cases speculating <;> cases taken <;> first | exact .inl rfl | cases awake
  | rescan =>
      simp only [workerStep] at taken
      split at taken <;> cases taken
      · exact .inl rfl
      · exact .inr ‹_›
  | clearCount h | absorb h =>
      cases taken
      exact .inl (Worker.takeUp_not_sleepy ..)
  | storeFlag | addCount | giveUp | unparkedCount | exitToken =>
      cases taken
      exact .inl rfl
  | clearIdle h | unparked =>
      simp only [workerStep] at taken
      split at taken <;> cases taken <;> exact .inl rfl
  | park => cases awake
  | unparkedStopping claimed =>
      simp only [workerStep, running] at taken
      cases taken
      exact .inl rfl
  | exitClear =>
      simp only [workerStep] at taken
      split at taken <;> cases taken
      · exact .inl rfl
      · cases speculating <;> exact .inl rfl
  | exitCount =>
      cases taken
      cases speculating <;> exact .inl rfl
  | exited => cases taken

/-- A scan ahead of a worker stays ahead until the injector is found empty. -/
theorem workerStep_ahead {g g' : Shared n H} {i : Fin n} {w w' : Worker n H}
    (taken : workerStep g i w = some (g', w')) (outside : w.pc.unparking = none)
    (running : g.workStopping = false)
    (ahead : g.parkToken i = true ∨ w.sleepy = false) :
    (g'.parkToken i = true ∨ w'.sleepy = false) ∨ g'.injector = [] := by
  rcases ahead with token | awake
  · rcases workerStep_parkToken taken outside with same | ⟨woken, -⟩
    · exact .inl (.inl (same ▸ token))
    · exact .inl (.inr (by simp only [Worker.sleepy, woken]))
  · exact (workerStep_sleepy taken outside running awake).imp .inr id

/-! ## Steps that keep the watch -/

theorem Worker.drained_of_sleepy {w : Worker n H} (sleepy : w.sleepy = true) :
    w.pc.drained = true := by
  obtain ⟨pc, speculating⟩ := w
  cases pc with
  | findWork second scan => cases second <;> cases scan <;> first | rfl | cases sleepy
  | checkStopping second => rfl
  | _ => first | rfl | cases sleepy

theorem Worker.Calls.awake {w : Worker n H} {u : Option (Unparking n)} (calls : w.Calls u) :
    w.sleepy = false := by
  by_contra sleepy
  have drained := Worker.drained_of_sleepy (Bool.not_eq_false _ ▸ sleepy)
  rw [calls.drained] at drained
  cases drained

theorem Worker.Calls.not_listening {w : Worker n H} {u : Option (Unparking n)}
    (calls : w.Calls u) : w.pc.listening = false := by
  by_contra listens
  have advertised : w.pc.advertised = true := by
    obtain ⟨pc, speculating⟩ := w
    cases pc with
    | findWork second scan => cases second <;> first | rfl | exact absurd rfl listens
    | checkStopping second => cases second <;> first | rfl | exact absurd rfl listens
    | _ => first | rfl | exact absurd rfl listens
  rw [calls.advertised] at advertised
  cases advertised

/-- A worker that leaves its flag for `handle.run`, or goes on with it, keeps
every claim in flight. -/
theorem claims_outside {s : State n m H} (claims : ClaimsInFlight s) {i : Fin n}
    {g' : Shared n H} {w' : Worker n H} (outside : (s.worker i).pc.unparking = none)
    (flags : ∀ k, k ≠ i → g'.idleFlag k = s.shared.idleFlag k)
    (tokens : ∀ k, g'.parkToken k = s.shared.parkToken k ∨ k = i ∧ w'.pc.listening = false)
    (listening : w'.pc.listening = true →
      (s.worker i).pc.listening = true ∧ g'.idleFlag i = s.shared.idleFlag i ∨
        g'.idleFlag i = true) :
    ClaimsInFlight (s.setWorker i g' w') := by
  intro k listens lowered untoken
  simp only [State.setWorker] at listens lowered untoken
  -- the flag was already claimed before the step
  have before : ∃ t u, s.call t = some u ∧ u.Claims k := by
    by_cases same : k = i
    · subst same
      rw [Function.update_self] at listens
      have kept : g'.parkToken k = s.shared.parkToken k := by
        rcases tokens k with kept | ⟨-, silent⟩
        · exact kept
        · rw [silent] at listens
          cases listens
      rcases listening listens with ⟨listened, flag⟩ | raised
      · exact claims k listened (flag ▸ lowered) (kept ▸ untoken)
      · rw [raised] at lowered
        cases lowered
    · rw [Function.update_of_ne same] at listens
      have kept : g'.parkToken k = s.shared.parkToken k :=
        (tokens k).resolve_right fun self => same self.1
      exact claims k listens (flags k same ▸ lowered) (kept ▸ untoken)
  obtain ⟨t, u, calls, claim⟩ := before
  refine ⟨t, u, ?_, claim⟩
  cases t with
  | inl j =>
      have other : j ≠ i := by
        rintro rfl
        rw [State.call, outside] at calls
        cases calls
      simp only [State.call, State.setWorker, Function.update_of_ne other]
      exact calls
  | inr p => exact calls

theorem Watched.worker {s : State n m H} (watched : Watched s) (balanced : Balanced s)
    (running : s.shared.workStopping = false) {i : Fin n} {g' : Shared n H} {w' : Worker n H}
    (taken : workerStep s.shared i (s.worker i) = some (g', w')) :
    Watched (s.setWorker i g' w') := by
  cases inside : (s.worker i).pc.unparking with
  | none =>
      have posts := workerStep_posts taken inside running (balanced.consistent i)
        (balanced.flagged i) (balanced.worker_charged i)
      have tokens := workerStep_parkToken taken inside
      refine ⟨claims_outside watched.claims inside posts.others ?_
        (workerStep_listening taken inside), fun filled => ?_⟩
      · intro k
        rcases tokens with same | ⟨woken, lowered⟩
        · exact .inl (congrFun same k)
        · by_cases self : k = i
          · exact .inr ⟨self, by rw [woken]; rfl⟩
          · exact .inl (by rw [lowered, Function.update_of_ne self])
      · have queues := workerStep_queues taken (balanced.drained i)
        rcases watched.attended fun empty => filled (queues.injector empty) with
          ⟨k, ahead⟩ | ⟨p, u, calls, pending⟩
        · by_cases self : k = i
          · subst self
            rcases workerStep_ahead taken inside running ahead with stays | empty
            · exact .inl ⟨k, by simpa only [ScanAhead, State.setWorker, Function.update_self]⟩
            · exact absurd empty filled
          · have kept : g'.parkToken k = s.shared.parkToken k := by
              rcases tokens with same | ⟨-, lowered⟩
              · rw [same]
              · rw [lowered, Function.update_of_ne self]
            refine .inl ⟨k, ?_⟩
            simpa only [ScanAhead, State.setWorker, Function.update_of_ne self, kept] using ahead
        · exact .inr ⟨p, u, calls, pending⟩
  | some u =>
      obtain ⟨rfl, calls, calls'⟩ := workerStep_unparking taken inside (balanced.consistent i)
      refine ⟨claims_unpark (t := .inl i) watched.claims inside rfl ?_ ?_ ?_, fun _ => ?_⟩
      · rintro (j | p) distinct
        · have other : j ≠ i := fun same => distinct (congrArg _ same)
          simp only [State.call, State.setWorker, Function.update_of_ne other]
        · rfl
      · simp only [State.call, State.setWorker, Function.update_self]
        exact calls'.unparking
      · intro k listens
        by_cases self : k = i
        · subst self
          simp only [State.setWorker, Function.update_self, calls'.not_listening] at listens
          cases listens
        · simpa only [State.setWorker, Function.update_of_ne self] using listens
      · refine .inl ⟨i, .inr ?_⟩
        simp only [State.setWorker, Function.update_self]
        exact calls'.awake

/-- Nobody but `p` could still look at the injector. -/
structure LeftTo (s : State n m H) (p : Fin m) : Prop where
  asleep : ∀ i, ¬ ScanAhead s i
  alone : ∀ q u, q ≠ p → s.producer q = some u → u = .giveBack

namespace LeftTo

variable {s : State n m H} {p : Fin m}

theorem sleepy (left : LeftTo s p) (i : Fin n) : (s.worker i).sleepy = true := by
  have asleep := left.asleep i
  simp only [ScanAhead, not_or, Bool.not_eq_false] at asleep
  exact asleep.2

/-- With everybody else asleep every flag is up, unless `p` itself claimed it. -/
theorem raised (left : LeftTo s p) (claims : ClaimsInFlight s) {i : Fin n}
    (free : ∀ u, s.producer p = some u → ¬ u.Claims i) : s.shared.idleFlag i = true := by
  by_contra lowered
  rcases attended_of_lowered claims (Bool.not_eq_true _ ▸ lowered) with
    ⟨k, ahead⟩ | ⟨q, u, calls, claim⟩
  · exact left.asleep k ahead
  · by_cases self : q = p
    · subst self
      exact free u calls claim
    · rw [left.alone q u self calls] at claim
      rcases claim with claim | claim <;> cases claim

end LeftTo

theorem Worker.idle_of_sleepy {w : Worker n H} (sleepy : w.sleepy = true) :
    w.idle true = 1 := by
  obtain ⟨pc, speculating⟩ := w
  cases pc with
  | findWork second scan => simp [Worker.idle]
  | checkStopping second => simp [Worker.idle]
  | park => simp [Worker.idle]
  | _ => cases sleepy

theorem Worker.tokens_of_sleepy {w : Worker n H} (sleepy : w.sleepy = true)
    (consistent : w.Consistent) : w.tokens true = 0 := by
  obtain ⟨pc, speculating⟩ := w
  cases pc with
  | findWork second scan =>
      cases second <;> cases scan <;> cases speculating <;> first | rfl | cases sleepy
  | checkStopping second =>
      cases second <;> cases speculating <;> first | rfl | cases sleepy
  | park =>
      have silent : speculating = false := consistent.off rfl
      subst silent
      rfl
  | _ => cases sleepy

/-- The load of `idle_count` sees the sleeping workers. -/
theorem LeftTo.idleCount_ne_zero {s : State n m H} {p : Fin m} {force : Bool}
    (left : LeftTo s p) (claims : ClaimsInFlight s) (balanced : Balanced s)
    (positive : 0 < n) (fits : n < 2 ^ 64)
    (calls : s.producer p = some (.loadIdleCount force)) : s.shared.idleCount ≠ 0 := by
  have raised : ∀ i, s.shared.idleFlag i = true := by
    intro i
    refine left.raised claims fun u inside => ?_
    rw [calls] at inside
    cases inside
    rintro (claim | claim) <;> cases claim
  have workers : ∀ i, (s.worker i).idle (s.shared.idleFlag i) = 1 := by
    intro i
    rw [raised i]
    exact Worker.idle_of_sleepy (left.sleepy i)
  have producers : ∀ q, unparkIdle (s.producer q) = 0 := by
    intro q
    by_cases self : q = p
    · rw [self, calls]
      rfl
    · cases inside : s.producer q with
      | none => rfl
      | some u =>
          rw [left.alone q u self inside]
          rfl
  have count : s.shared.idleCount = (n : BitVec 64) := by
    simp only [balanced.idleCount, workers, producers, Finset.sum_const_zero, add_zero]
    simp
  intro zero
  have size := congrArg BitVec.toNat (count.symm.trans zero)
  simp only [BitVec.natCast_eq_ofNat, BitVec.toNat_ofNat] at size
  rw [Nat.mod_eq_of_lt fits] at size
  simp at size
  omega

/-- The tokens that are out then belong to threads about to give them back. -/
theorem LeftTo.speculation_le {s : State n m H} {p : Fin m}
    (left : LeftTo s p) (claims : ClaimsInFlight s) (balanced : Balanced s)
    (calls : s.producer p = some (.takeToken false)) :
    s.shared.speculation ≤ (givingBack s).card := by
  have raised : ∀ i, s.shared.idleFlag i = true := by
    intro i
    refine left.raised claims fun u inside => ?_
    rw [calls] at inside
    cases inside
    rintro (claim | claim) <;> cases claim
  have workers : ∀ i, (s.worker i).tokens (s.shared.idleFlag i) = 0 := by
    intro i
    rw [raised i]
    exact Worker.tokens_of_sleepy (left.sleepy i) (balanced.consistent i)
  have producers : ∀ q, unparkTokens (s.producer q) =
      if s.producer q = some .giveBack then 1 else 0 := by
    intro q
    by_cases self : q = p
    · rw [self, calls]
      rfl
    · cases inside : s.producer q with
      | none => rfl
      | some u =>
          rw [left.alone q u self inside]
          rfl
  simp only [balanced.speculation, workers, producers, Finset.sum_const_zero, zero_add]
  rw [givingBack, Finset.card_filter]

theorem wakeIdle_ne_giveBack (positive : 0 < n) : wakeIdle (n := n) ≠ .giveBack := by
  simp [wakeIdle, positive]

/-- A thread other than `p`, or a worker, that attends the injector is not
touched by a step of `p`. -/
theorem attended_or_left {s : State n m H} {p : Fin m} {u : Unparking n}
    (tokens : ∀ i, s.shared.parkToken i = true → (u.step s.shared).1.parkToken i = true) :
    Attended (s.setProducer p (u.step s.shared).1 (u.step s.shared).2) ∨ LeftTo s p := by
  by_cases awake : ∃ i, ScanAhead s i
  · obtain ⟨i, ahead⟩ := awake
    exact .inl (.inl ⟨i, ahead.imp (tokens i) id⟩)
  · by_cases helped : ∃ q v, q ≠ p ∧ s.producer q = some v ∧ v ≠ .giveBack
    · obtain ⟨q, v, other, calls, pending⟩ := helped
      refine .inl (.inr ⟨q, v, ?_, pending⟩)
      simp only [State.setProducer, Function.update_of_ne other, calls]
    · push Not at awake helped
      exact .inr ⟨awake, fun q v other calls => helped q v other calls⟩

/-- A thread that goes on with its unpark call attends the injector. -/
theorem attended_setProducer {s : State n m H} {p : Fin m} {g : Shared n H}
    {u : Unparking n} (pending : u ≠ .giveBack) : Attended (s.setProducer p g (some u)) :=
  .inr ⟨p, u, by simp only [State.setProducer, Function.update_self], pending⟩

theorem Watched.producer {s : State n m H} (watched : Watched s) (balanced : Balanced s)
    (positive : 0 < n) (fits : n < 2 ^ 64) {p : Fin m} {u : Unparking n}
    (calls : s.producer p = some u)
    (covered : u = .takeToken false → s.shared.speculation ≠ 0 →
      (∃ i, ScanAhead s i) ∨ (givingBack s).card < s.shared.speculation) :
    Watched (s.setProducer p (u.step s.shared).1 (u.step s.shared).2) := by
  refine ⟨claims_unpark (t := .inr p) watched.claims calls rfl ?_ ?_ (fun _ => id),
    fun filled => ?_⟩
  · rintro (i | q) distinct
    · rfl
    · have other : q ≠ p := fun same => distinct (congrArg _ same)
      simp only [State.call, State.setProducer, Function.update_of_ne other]
  · simp only [State.call, State.setProducer, Function.update_self]
  · rcases attended_or_left (p := p) fun i => u.step_parkToken (i := i) with attended | left
    · exact attended
    cases u with
    | loadIdleCount force =>
        have idle := left.idleCount_ne_zero watched.claims balanced positive fits calls
        simp only [Unparking.step, idle, if_false]
        exact attended_setProducer (by simp)
    | takeToken force =>
        cases force with
        | true => exact attended_setProducer (wakeIdle_ne_giveBack positive)
        | false =>
            by_cases free : s.shared.speculation = 0
            · simp only [Unparking.step, free, if_true]
              exact attended_setProducer (wakeIdle_ne_giveBack positive)
            · have atMost := left.speculation_le watched.claims balanced calls
              rcases covered rfl free with ⟨i, ahead⟩ | out
              · exact absurd ahead (left.asleep i)
              · omega
    | tryFlag j =>
        have raised : s.shared.idleFlag j = true := by
          refine left.raised watched.claims fun v inside => ?_
          rw [calls] at inside
          cases inside
          rintro (claim | claim) <;> cases claim
        simp only [Unparking.step, raised, if_true]
        exact attended_setProducer (by simp)
    | subIdleCount j => exact attended_setProducer (by simp)
    | unparkWorker j => exact .inl ⟨j, .inl (Function.update_self ..)⟩
    | giveBack =>
        -- the handle was attended before, so somebody else attends it
        have before : s.shared.injector ≠ [] := filled
        rcases watched.attended before with ⟨i, ahead⟩ | ⟨q, v, inside, pending⟩
        · exact absurd ahead (left.asleep i)
        · by_cases self : q = p
          · rw [self, calls] at inside
            cases inside
            exact absurd rfl pending
          · exact absurd (left.alone q v self inside) pending

/-- `handle.run` starts a push or returns: its worker is up. -/
theorem Watched.fromRun {s : State n m H} (watched : Watched s) {i : Fin n} {h : H}
    (runs : (s.worker i).pc = .run h) {g' : Shared n H} {pc' : WorkerPc n H}
    (flags : g'.idleFlag = s.shared.idleFlag) (tokens : g'.parkToken = s.shared.parkToken)
    (silent : pc'.listening = false) : Watched (s.setWorker i g' ((s.worker i).goto pc')) := by
  refine ⟨claims_outside watched.claims (by rw [runs]; rfl) (fun k _ => congrFun flags k)
    (fun k => .inl (congrFun tokens k)) ?_, fun _ => .inl ⟨i, .inr ?_⟩⟩
  · intro listens
    rw [Worker.goto, silent] at listens
    cases listens
  · by_contra sleepy
    have listens := Worker.listening_of_sleepy (Bool.not_eq_false _ ▸ sleepy)
    simp only [State.setWorker, Function.update_self, Worker.goto, silent] at listens
    cases listens

theorem watched_step {s s' : State n m H} {a : Act n m H} (positive : 0 < n)
    (fits : n < 2 ^ 64) (watched : Watched s) (balanced : Balanced s)
    (running : s'.shared.workStopping = false) (covered : WakeCovered s a)
    (taken : step s a = some s') : Watched s' := by
  cases a with
  | worker i =>
      obtain ⟨⟨g', w'⟩, moved, rfl⟩ := Option.map_eq_some_iff.mp taken
      exact watched.worker balanced ((workerStep_stopping moved).symm.trans running) moved
  | runPush i op h' =>
      simp only [step] at taken
      split at taken <;> cases taken
      rename_i h runs
      cases op <;> exact watched.fromRun runs rfl rfl rfl
  | runEnd i =>
      simp only [step] at taken
      split at taken <;> cases taken
      rename_i h runs
      exact watched.fromRun runs rfl rfl rfl
  | producerPush p op h =>
      simp only [step] at taken
      split at taken <;> cases taken
      rename_i outside
      refine ⟨fun i listens lowered untoken => ?_, fun _ => attended_setProducer (by simp)⟩
      obtain ⟨t, u, calls, claim⟩ := watched.claims i listens lowered untoken
      refine ⟨t, u, ?_, claim⟩
      cases t with
      | inl k => exact calls
      | inr q =>
          have other : q ≠ p := by
            rintro rfl
            rw [State.call, outside] at calls
            cases calls
          simp only [State.call, State.setProducer, Function.update_of_ne other]
          exact calls
  | producer p =>
      simp only [step] at taken
      split at taken <;> cases taken
      rename_i u inside
      refine watched.producer balanced positive fits inside fun elides out => ?_
      exact covered ⟨p, rfl, elides ▸ inside, out⟩
  | stop =>
      cases taken
      cases running
  | stopUnpark i =>
      simp only [step] at taken
      split at taken <;> cases taken
      rename_i stopping
      rw [stopping] at running
      cases running

theorem watched_start {s : State n m H} (positive : 0 < n) (start : Start s) : Watched s := by
  obtain ⟨-, -, -, -, -, -, worker, -⟩ := start
  refine ⟨fun i listens => ?_, fun _ => .inl ⟨⟨0, positive⟩, .inr ?_⟩⟩
  · rw [worker] at listens
    cases listens
  · rw [worker]
    rfl

theorem watched_of_reach (positive : 0 < n) (fits : n < 2 ^ 64) {s : State n m H}
    (reached : (machine n m H).Reach WakeCovered s) :
    s.shared.workStopping = false → Watched s := by
  refine (Machine.Reach.invariant
    (fun s => s.shared.workStopping = false → Balanced s ∧ Watched s)
    (fun s start _ => ⟨balanced_start start, watched_start positive start⟩) ?_ reached · |>.2)
  intro s a s' before covered taken running
  obtain ⟨balanced, watched⟩ := before (running_before running taken)
  exact ⟨balanced_step balanced running taken,
    watched_step positive fits watched balanced running covered taken⟩

/-! ## No stranded handle -/

/-- In every run whose elided wakes are covered, a state in which all workers
are parked and no push is under way has empty queues.  `n` is a `usize`. -/
theorem no_stranded_handle (positive : 0 < n) (fits : n < 2 ^ 64) {s : State n m H}
    (reached : (machine n m H).Reach WakeCovered s) : NoStrandedHandle s := by
  intro running parked quiet
  have watched := watched_of_reach positive fits reached running
  refine ⟨?_, fun i => ?_⟩
  · by_contra filled
    rcases watched.attended filled with ⟨i, token | awake⟩ | ⟨p, u, calls, -⟩
    · rw [(parked i).2] at token
      cases token
    · rw [Worker.sleepy, (parked i).1] at awake
      cases awake
    · rw [quiet p] at calls
      cases calls
  · refine (balanced_of_reach reached running).drained i ?_
    rw [(parked i).1]
    rfl

/-! ## Runs -/

/-- A fresh schedule with nothing queued. -/
def idleStart (n m : Nat) (H : Type) : State n m H where
  shared :=
    { injector := []
      deque := fun _ => []
      idleFlag := fun _ => false
      idleCount := 0
      speculation := 0
      parkToken := fun _ => false
      workStopping := false }
  worker := fun _ => { pc := .findWork false .own, isSpeculating := false }
  producer := fun _ => none

theorem idleStart_start : Start (idleStart n m H) :=
  ⟨fun _ => rfl, fun _ => rfl, rfl, rfl, fun _ => rfl, rfl, fun _ => rfl, fun _ => rfl⟩

instance [DecidableEq H] (s : State n m H) : Decidable (AllParked s) :=
  inferInstanceAs (Decidable (∀ _, _ ∧ _))

instance (s : State n m H) : Decidable (NoPush s) :=
  inferInstanceAs (Decidable (∀ p, s.producer p = none))

instance [DecidableEq H] (s : State n m H) : Decidable (NoStrandedHandle s) :=
  inferInstanceAs (Decidable (_ → _ → _ → _ ∧ ∀ i, s.shared.deque i = []))

/-- The worker misses a push of thread 0 by its flag, runs the handle and parks
again; thread 0 still has its token when thread 1 pushes, and gives it back. -/
def strandingRun : List (Act 1 2 Nat) :=
  List.flatten
    [.replicate 7 (.worker 0),
      [.producerPush 0 .addHandle 1, .producer 0, .producer 0],
      .replicate 4 (.worker 0),
      [.runEnd 0, .producer 0],
      .replicate 12 (.worker 0),
      [.producerPush 1 .addHandle 2, .producer 1, .producer 1, .producer 0]]

theorem strandingRun_strands :
    ((machine 1 2 Nat).exec (idleStart 1 2 Nat) strandingRun).any
      (fun s => !decide (NoStrandedHandle s)) = true := by
  decide +kernel

theorem stranded_handle :
    ¬ ∀ s : State 1 2 Nat, (machine 1 2 Nat).Reachable s → NoStrandedHandle s := by
  intro never
  obtain ⟨s, reached, stranded⟩ :=
    Machine.Reachable.exists_of_exec idleStart_start strandingRun_strands
  simp [never s reached] at stranded

/-- A wake is never elided in the run below. -/
def wakesAll (s : State 1 1 Nat) : Act 1 1 Nat → Bool
  | .producer _ => s.shared.speculation = 0 || s.producer 0 ≠ some (.takeToken false)
  | _ => true

theorem wakesAll_covered (s : State 1 1 Nat) (a : Act 1 1 Nat) (checked : wakesAll s a = true) :
    WakeCovered s a := by
  rintro ⟨p, rfl, inside, out⟩
  have only : p = 0 := Subsingleton.elim _ _
  subst only
  simp [wakesAll, inside, out] at checked

/-- The parked worker is woken for a pushed handle, runs it and parks again. -/
def wakingRun : List (Act 1 1 Nat) :=
  List.flatten
    [.replicate 12 (.worker 0),
      .producerPush 0 .deferHandle 1 :: .replicate 5 (.producer 0),
      .replicate 7 (.worker 0),
      .runEnd 0 :: .replicate 12 (.worker 0)]

theorem wakingRun_quiet :
    ((machine 1 1 Nat).execIf wakesAll (idleStart 1 1 Nat) wakingRun).any
      (fun s => decide (AllParked s ∧ NoPush s)) = true := by
  decide +kernel

theorem no_stranded_handle_after_waking :
    ∃ s : State 1 1 Nat, AllParked s ∧ NoPush s ∧ NoStrandedHandle s := by
  obtain ⟨s, reached, quiet⟩ :=
    Machine.Reach.exists_of_execIf wakesAll_covered idleStart_start wakingRun_quiet
  obtain ⟨parked, calm⟩ := of_decide_eq_true quiet
  exact ⟨s, parked, calm, no_stranded_handle (by decide) (by decide) reached⟩

end MtAsyncio.WorkSchedule
