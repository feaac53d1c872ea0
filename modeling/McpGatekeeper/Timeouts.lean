import McpGatekeeper.Calendar
import McpGatekeeper.Interleaving.Journal
import McpGatekeeper.Scenarios

namespace McpGatekeeper.Timeouts

open Interleaving
open McpGatekeeper.Approvals
open McpGatekeeper.Calendar
open McpGatekeeper.Clock
open McpGatekeeper.Gateway
open McpGatekeeper.JsonValues
open McpGatekeeper.Operations
open McpGatekeeper.PolicyEngine
open McpGatekeeper.Scenarios
open McpGatekeeper.Service
open McpGatekeeper.System

inductive OnTimeout
  | deny
  | allow
  deriving DecidableEq

/-- `Field(gt=0)` -/
def gtZero : Seconds → Bool
  | .finite value => decide (0 < value)
  | .infinity => true

/-- The `approvals` section under a timeout that the schema has accepted. -/
structure ApprovalConfig where
  mode : ApprovalMode := .auto
  timeoutSeconds : Seconds := .finite 300
  onTimeout : OnTimeout := .deny
  uiBaseUrl : String := "http://localhost:8765"
  accepted : gtZero timeoutSeconds = true := by decide

namespace ApprovalConfig

variable (config : ApprovalConfig)

/-- The service `_serve` builds. -/
def service : ApprovalService where
  timeoutSeconds := config.timeoutSeconds
  approveOnTimeout := config.onTimeout == .allow

/-- The gateway `_serve` builds around it. -/
def deps (policy : Policy) (redact : List String) : GatewayDeps where
  policy := policy
  approvals := config.service
  approvalMode := config.mode
  uiBaseUrl := config.uiBaseUrl
  redact := redact

end ApprovalConfig

def microsecondsLeft (now : DateTime) : Int :=
  latest.toMicroseconds - now.toMicroseconds

/-- Rounded to whole microseconds, half to even, the timeout is at least one and no more
than the calendar has left. -/
def Schedulable (now : DateTime) : Seconds → Prop
  | .finite value =>
      1 / 2 < value * 1000000 ∧
        (value * 1000000 < microsecondsLeft now + 1 / 2 ∨
          (value * 1000000 = microsecondsLeft now + 1 / 2 ∧ microsecondsLeft now % 2 = 0))
  | .infinity => False

instance (now : DateTime) : DecidablePred (Schedulable now)
  | .finite _ => inferInstanceAs (Decidable (_ ∧ _))
  | .infinity => inferInstanceAs (Decidable False)

theorem schedulable_iff {now : DateTime} {timeout : Seconds} :
    Schedulable now timeout ↔ ∃ microseconds, timedelta timeout = some microseconds ∧
      0 < microseconds ∧ microseconds ≤ microsecondsLeft now := by
  cases timeout with
  | infinity => simp [Schedulable, timedelta]
  | finite value =>
      have hupper := microseconds_le value (microsecondsLeft now)
      have hspan : microsecondsLeft now < 3652060 * microsecondsPerDay := by
        have hnow := (toMicroseconds_range now).1
        rw [microsecondsLeft, latest_toMicroseconds]
        simp only [microsecondsPerDay] at hnow ⊢
        omega
      rw [Schedulable, ← microseconds_pos, ← hupper]
      simp only [timedelta]
      constructor
      · rintro ⟨hpos, hle⟩
        refine ⟨_, if_pos ?_, hpos, hle⟩
        simp only [microsecondsPerDay] at hspan ⊢
        omega
      · rintro ⟨microseconds, htimedelta, hpos, hle⟩
        split at htimedelta
        · obtain rfl := Option.some.inj htimedelta
          exact ⟨hpos, hle⟩
        · cases htimedelta

theorem deadline_iff {service : ApprovalService} {now : DateTime} :
    (∃ expiresAt, service.deadline now = some expiresAt ∧ now < expiresAt) ↔
      Schedulable now service.timeoutSeconds := by
  rw [schedulable_iff]
  simp only [ApprovalService.deadline, Option.bind_eq_some_iff]
  constructor
  · rintro ⟨expiresAt, ⟨microseconds, htimedelta, hadd⟩, hahead⟩
    have hsum := add_eq_some_iff.mp hadd
    have hlt := toMicroseconds_strictMono hahead
    have hrange := (toMicroseconds_range expiresAt).2
    refine ⟨microseconds, htimedelta, by omega, ?_⟩
    rw [microsecondsLeft]
    omega
  · rintro ⟨microseconds, htimedelta, hpos, hle⟩
    rw [microsecondsLeft] at hle
    have hnow := (toMicroseconds_range now).1
    have hrange : microsecondsPerDay ≤ now.toMicroseconds + microseconds ∧
        now.toMicroseconds + microseconds ≤ latest.toMicroseconds := by omega
    obtain ⟨expiresAt, hadd, hsum⟩ := add_of_range hrange
    refine ⟨expiresAt, ⟨microseconds, htimedelta, hadd⟩, ?_⟩
    apply toMicroseconds_strictMono.lt_iff_lt.mp
    omega

/-- The last moment of the year 2100. -/
def endOf2100 : DateTime :=
  { latest with
    year := 2100
    year_range := by decide
    day_range := by decide }

theorem le_endOf2100 {now : DateTime} (hyear : now.year ≤ 2100) : now ≤ endOf2100 := by
  have hwithin := (denotes_toordinal now).within.2
  have hdays : daysBeforeYear (now.year + 1) ≤ daysBeforeYear 2101 :=
    daysBeforeYear_mono (Nat.succ_le_succ hyear)
  have htime := timeOfDay_lt now
  have hend : endOf2100.toMicroseconds = (daysBeforeYear 2101 + 1) * microsecondsPerDay - 1 := by
    decide
  apply toMicroseconds_strictMono.le_iff_le.mp
  rw [hend, toMicroseconds_eq]
  simp only [microsecondsPerDay] at htime ⊢
  omega

theorem Schedulable.earlier {now later : DateTime} {timeout : Seconds}
    (h : Schedulable later timeout) (hle : now ≤ later) : Schedulable now timeout := by
  obtain ⟨microseconds, htimedelta, hpos, hleft⟩ := schedulable_iff.mp h
  refine schedulable_iff.mpr ⟨microseconds, htimedelta, hpos, le_trans hleft ?_⟩
  have hmono := toMicroseconds_strictMono.monotone hle
  rw [microsecondsLeft, microsecondsLeft]
  omega

example : Schedulable endOf2100 (.finite 300) := by decide +kernel

/-- A point of a call of `open` that has read the clock: what is left to do there and what
has been done. -/
structure Opens (now : DateTime) (rest : Prog Reply) (items : Journal Res) : Prop where
  computes : rest ≠ .fail (.raised "OverflowError")
  stores : ∀ request stored, ⟨.createApproval request, stored⟩ ∈ items →
    request.createdAt = now ∧ request.isExpiredAt request.createdAt = false
  returns : ∀ reply, rest = .ret reply → ∃ request, reply = .opened request ∧
    ⟨.createApproval request, true⟩ ∈ items

/-- However it is interleaved, no call of `open` that reads the clock at `now` fails over
its deadline, and the request it stores and returns is not expired at its creation. -/
def Usable (config : ApprovalConfig) (now : DateTime) : Prop :=
  ∀ (policy : Policy) (redact : List String) (world : World) (c : GateConfig),
    (machine (config.deps policy redact)).Reaches .none (Config.initial world) c →
    ∀ i tool upstream arguments reason clientName rest,
      c.tasks[i]? = some ⟨.openApproval tool upstream arguments reason clientName, rest⟩ →
      ⟨.now, now⟩ ∈ journal i c.state.history → Opens now rest (journal i c.state.history)

def isOpening : Entry → Bool
  | .openApproval _ _ _ _ _ => true
  | _ => false

/-- What is said of a task at each of its points. -/
def Follows (now : DateTime) (entry : Entry) (rest : Prog Reply) (items : Journal Res) : Prop :=
  isOpening entry = true → ⟨.now, now⟩ ∈ items → Opens now rest items

theorem opens_of {now : DateTime} {rest : Prog Reply} {items : Journal Res}
    (hcomputes : rest ≠ .fail (.raised "OverflowError"))
    (hstores : ∀ request stored, ⟨.createApproval request, stored⟩ ∈ items →
      request.createdAt = now ∧ now < request.expiresAt)
    (hreturns : ∀ reply, rest = .ret reply → ∃ request, reply = .opened request ∧
      ⟨.createApproval request, true⟩ ∈ items) : Opens now rest items where
  computes := hcomputes
  stores request stored hmem := by
    obtain ⟨hcreated, hahead⟩ := hstores request stored hmem
    refine ⟨hcreated, ?_⟩
    simp [ApprovalRequest.isExpiredAt, hcreated, hahead]
  returns := hreturns

theorem openApproval_follows {service : ApprovalService} {now : DateTime}
    (hdeadline : ∃ expiresAt, service.deadline now = some expiresAt ∧ now < expiresAt)
    (tool upstream : String) (arguments : JsonObject) (reason clientName : Option String) :
    (do
      let approval ← service.openApproval tool upstream arguments reason clientName
      pure (.opened approval) : Prog Reply).Narrates
        (fun items op => ∀ next, ⟨.now, now⟩ ∈ items → Opens now (.perform op next) items)
        (fun halt items => ⟨.now, now⟩ ∈ items → Opens now (.fail halt) items)
        (fun reply items => ⟨.now, now⟩ ∈ items → Opens now (.ret reply) items) [] := by
  obtain ⟨expiresAt, hsome, hahead⟩ := hdeadline
  refine ⟨fun next hnow => absurd hnow List.not_mem_nil, fun moment => ⟨?_, fun id => ?_⟩⟩
  · exact fun next _ => opens_of (by simp) (by simp) (by simp)
  · dsimp only [Program.bind]
    split
    · rename_i hnone
      intro hnow
      obtain rfl : now = moment := by simpa using hnow
      rw [hsome] at hnone
      cases hnone
    · rename_i later hcomputed
      have hlater : now = moment → now < later := by
        rintro rfl
        obtain rfl := Option.some.inj (hsome.symm.trans hcomputed)
        exact hahead
      refine ⟨fun next _ => opens_of (by simp) (by simp) (by simp), ?_⟩
      rintro (_ | _)
      · intro hnow
        obtain rfl : now = moment := by simpa using hnow
        exact opens_of (by simp) (by simp [hlater]) (by simp)
      · refine ⟨fun next hnow => ?_, fun _ hnow => ?_⟩
        · obtain rfl : now = moment := by simpa using hnow
          exact opens_of (by simp) (by simp [hlater]) (by simp)
        · obtain rfl : now = moment := by simpa using hnow
          refine opens_of (by simp) (by simp [hlater]) ?_
          rintro reply ⟨⟩
          exact ⟨_, rfl, by simp⟩

theorem code_follows (deps : GatewayDeps) {now : DateTime}
    (hdeadline : ∃ expiresAt, deps.approvals.deadline now = some expiresAt ∧ now < expiresAt)
    (entry : Entry) :
    (code deps entry).Narrates
      (fun items op => ∀ next, Follows now entry (.perform op next) items)
      (fun halt items => Follows now entry (.fail halt) items)
      (fun reply items => Follows now entry (.ret reply) items) [] := by
  cases entry
  case openApproval tool upstream arguments reason clientName =>
    have hfollows := openApproval_follows hdeadline tool upstream arguments reason clientName
    simp only [Follows, isOpening, forall_const]
    exact hfollows
  all_goals
    refine Program.Narrates.mono ?_ (Program.narrates_of_forall ?_ ?_ _ _)
    · exact fun reply items _ hopening => absurd hopening Bool.false_ne_true
    · exact fun items op next hopening => absurd hopening Bool.false_ne_true
    · exact fun halt items hopening => absurd hopening Bool.false_ne_true

theorem usable_of_deadline {config : ApprovalConfig} {now : DateTime}
    (hdeadline : ∃ expiresAt, config.service.deadline now = some expiresAt ∧ now < expiresAt) :
    Usable config now := by
  intro policy redact world c hreach i tool upstream arguments reason clientName rest htask hnow
  have hcancelled : ∀ entry op next items, Follows now entry (.perform op next) items →
      Follows now entry (.fail .cancelled) items := by
    intro entry op next items hfollows hopening hmem
    exact { computes := by simp, stores := (hfollows hopening hmem).stores, returns := by simp }
  have hfollows : Follows now _ rest _ :=
    hreach.follows (code_follows (config.deps policy redact) hdeadline) hcancelled htask
  exact hfollows rfl hnow

def unnamed : Entry := .openApproval "" "" [] none none

theorem reaches_deadline (deps : GatewayDeps) (now : DateTime) :
    ∃ c, (machine deps).Reaches .none (Config.initial { now := now }) c ∧
      ⟨.now, now⟩ ∈ journal 0 c.state.history ∧ c.state.world.approvals = .empty ∧
      (deps.approvals.deadline now = none →
        c.tasks[0]? = some ⟨unnamed, .fail (.raised "OverflowError")⟩) ∧
      ∀ expiresAt, deps.approvals.deadline now = some expiresAt →
        ∃ request next,
          c.tasks[0]? = some ⟨unnamed, .perform (.createApproval request) next⟩ ∧
          request.createdAt = now ∧ request.expiresAt = expiresAt ∧
          request.status = .pending := by
  have hrun : (machine deps).run .none (Config.initial { now := now })
      [.start unnamed, act 0, act 0] = some _ := rfl
  refine ⟨_, Machine.reaches_of_run hrun, List.mem_cons_of_mem _ List.mem_cons_self, rfl,
    ?_, ?_⟩
  · intro hdeadline
    change some (Task.mk _ (Program.bind (Program.bind _ _) _)) = _
    simp only [Config.initial, hdeadline, Program.bind]
  · intro expiresAt hdeadline
    refine ⟨?request, ?next, ?task, ?fields⟩
    case task =>
      change some (Task.mk _ (Program.bind (Program.bind _ _) _)) = _
      simp only [Config.initial, hdeadline, Program.bind]
      rfl
    case fields => exact ⟨rfl, rfl, rfl⟩

theorem deadline_of_usable {config : ApprovalConfig} {now : DateTime}
    (husable : Usable config now) :
    ∃ expiresAt, config.service.deadline now = some expiresAt ∧ now < expiresAt := by
  obtain ⟨c, hreach, hnow, hempty, hnone, hsome⟩ :=
    reaches_deadline (config.deps policy []) now
  rcases hdeadline : config.service.deadline now with _ | expiresAt
  · have hopens := husable policy [] _ c hreach 0 _ _ _ _ _ _ (hnone hdeadline) hnow
    exact absurd rfl hopens.computes
  · obtain ⟨request, next, htask, rfl, rfl, hpending⟩ := hsome expiresAt hdeadline
    have hexec : ∃ w, exec (.createApproval request) {} c.state.world = some (true, w) := by
      simp [exec, hempty, ApprovalsTable.create, ApprovalsTable.empty]
    obtain ⟨w, hexec⟩ := hexec
    have hstored := hreach.tail
      ⟨.act 0 {}, Assumption.permits_none _ _, Machine.step_act htask hexec⟩
    have hlt := (List.getElem?_eq_some_iff.mp htask).1
    have hopens := husable policy [] _ _ hstored 0 _ _ _ _ _ _ (List.getElem?_set_self hlt)
      (List.mem_cons_of_mem _ hnow)
    obtain ⟨-, hlive⟩ := hopens.stores request true List.mem_cons_self
    refine ⟨_, rfl, ?_⟩
    simpa [ApprovalRequest.isExpiredAt, hpending] using hlive

/-- A call of `open` finds its deadline ahead exactly if the timeout is more than half a
microsecond and rounds to one within the calendar; it does so up to the year 2100 exactly
if it does so at its end. -/
theorem open_usable_iff (config : ApprovalConfig) :
    (∀ now, Usable config now ↔ Schedulable now config.timeoutSeconds) ∧
      ((∀ now : DateTime, 2000 ≤ now.year → now.year ≤ 2100 → Usable config now) ↔
        Schedulable endOf2100 config.timeoutSeconds) := by
  have hiff : ∀ now, Usable config now ↔ Schedulable now config.timeoutSeconds := by
    intro now
    constructor
    · exact fun husable => deadline_iff.mp (deadline_of_usable husable)
    · exact fun hschedulable => usable_of_deadline (deadline_iff.mpr hschedulable)
  refine ⟨hiff, ?_⟩
  constructor
  · exact fun husable => (hiff _).mp (husable endOf2100 (by decide) (by decide))
  · intro hschedulable now _ hyear
    exact (hiff now).mpr (hschedulable.earlier (le_endOf2100 hyear))

def forever : ApprovalConfig where
  timeoutSeconds := .infinity

/-- `timeout_seconds: 1e12`, some thirty thousand years. -/
def ages : ApprovalConfig where
  timeoutSeconds := .finite 1000000000000

/-- `timeout_seconds: 2.384185791015625e-07`, which is 2⁻²². -/
def instant : ApprovalConfig where
  timeoutSeconds := .finite (1 / 4194304)
  accepted := by decide +kernel

/-- The schema accepts all three. -/
theorem open_unusable :
    2000 ≤ noon.year ∧ noon.year ≤ 2100 ∧
      ¬Usable forever noon ∧ ¬Usable ages noon ∧ ¬Usable instant noon := by
  have hforever : ¬Schedulable noon forever.timeoutSeconds := id
  have hages : ¬Schedulable noon ages.timeoutSeconds := by decide +kernel
  have hinstant : ¬Schedulable noon instant.timeoutSeconds := by decide +kernel
  refine ⟨by decide, by decide, fun husable => ?_, fun husable => ?_, fun husable => ?_⟩
  · exact hforever (deadline_iff.mp (deadline_of_usable husable))
  · exact hages (deadline_iff.mp (deadline_of_usable husable))
  · exact hinstant (deadline_iff.mp (deadline_of_usable husable))

end McpGatekeeper.Timeouts
