import McpGatekeeper.System

namespace McpGatekeeper.Scenarios

open Interleaving
open McpGatekeeper.Clock
open McpGatekeeper.Gateway
open McpGatekeeper.JsonValues
open McpGatekeeper.Operations
open McpGatekeeper.PolicyEngine
open McpGatekeeper.Registry
open McpGatekeeper.Service
open McpGatekeeper.System

/-- New Year's Day 2026, at the given time. -/
def newYear (hour minute : Nat) (hhour : hour < 24 := by decide)
    (hminute : minute < 60 := by decide) : DateTime where
  year := 2026
  month := 1
  day := 1
  hour := hour
  minute := minute
  second := 0
  microsecond := 0
  year_range := by decide
  month_range := by decide
  day_range := by decide
  hour_range := hhour
  minute_range := hminute
  second_range := by decide
  microsecond_range := by decide

def noon : DateTime := newYear 12 0

def oneOClock : DateTime := newYear 13 0

def office : World where
  now := noon
  connections := ["fs"]
  registry := ToolRegistry.build [("fs", [{ name := "write" }, { name := "delete" }])]

theorem office_pending (id : String) (row : Approvals.ApprovalRequest)
    (hrow : office.approvals.get id = some row) : row.status = .pending := by
  cases hrow

def policy : Policy where
  rules := [{ tool := "fs__delete", action := .deny }]
  default := .requireApproval

def deps : GatewayDeps where
  policy := policy
  approvals := {}

/-- The same deployment under `on_timeout: allow`. -/
def lenientDeps : GatewayDeps where
  policy := policy
  approvals := { approveOnTimeout := true }

def done : Except String CallToolResult :=
  .ok { content := [.text "done"], isError := false }

/-- The next operation of a task, with nothing to choose. -/
def act (task : Nat) : GateLabel := .act task {}

def acts (task count : Nat) : List GateLabel := List.replicate count (act task)

/-- The next operation of a task, answered by a fresh identifier. -/
def names (task : Nat) (text : String) : GateLabel := .act task { text := text }

/-- The next operation of a task, answered by the upstream. -/
def serves (task : Nat) : GateLabel := .act task { answer := done }

def clock (now : DateTime) : GateLabel := .env (.tick now 0)

/-- A call that policy denies. -/
def denial : Invocation := { name := "fs__delete" }

/-- A retry of `fs__write` that resumes the request `a`. -/
def retry : Invocation :=
  { name := "fs__write", requestState := some "a", inputResponses := some [] }

/-- A request for `fs__write` is opened by task 0, due five minutes past noon. -/
def opening : List GateLabel :=
  [.start (.openApproval "fs__write" "fs" [] none none), act 0, names 0 "a"] ++ acts 0 2

/-- Task `i` approves the request `a`. -/
def approving (i : Nat) : List GateLabel :=
  .start (.decide "a" true "kim" none) :: acts i 3

/-- Task `i` denies the request `a`. -/
def denying (i : Nat) : List GateLabel :=
  .start (.decide "a" false "kim" none) :: acts i 3

end McpGatekeeper.Scenarios
