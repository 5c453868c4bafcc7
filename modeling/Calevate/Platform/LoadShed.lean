import Mathlib.Data.List.Induction
import Mathlib.Logic.Function.Basic
import Calevate.Lib.Run

/-!
# The platform's status and its copies

The durable row is read through two layers of copies: a memo in each process, and one key in the
shared cache. `get_platform_status` takes the first fresh copy it meets and, where it had to
read the row, writes what it read into the cache; `set_platform_status` commits the row,
drops its own memo and the key, and reads the row again. Every copy expires: the memo by the
age of the call that made it, the key by the expiry each write gives it.

Any number of calls run in any number of processes; a call is cut before each of its steps,
any time may pass there, and a step against the cache may fail. Instants are milliseconds of
one clock.
-/

namespace Calevate

namespace Platform

open Lib

inductive LoadShedMode where
  | normal
  | reduced
  | emergency
  | maintenance
  deriving DecidableEq, Repr

/-- `MaintenancePhase` -/
inductive MaintenancePhase where
  | none
  | draining
  | active
  deriving DecidableEq, Repr

/-- What clients are shown; never blank. -/
abbrev Reason : Type := { text : String // text ≠ "" }

structure PlatformStatus where
  mode : LoadShedMode := .normal
  outboundHalted : Bool := false
  maintenance : MaintenancePhase := .none
  maintenanceEndsAt : Option ℕ := Option.none
  maintenanceReason : Option Reason := Option.none
  deriving DecidableEq

/-- The fields of the cache's key, as `_cache_write` spells them. -/
structure CachedStatus where
  mode : LoadShedMode
  outboundHalted : String
  maintenance : MaintenancePhase
  maintenanceEndsAt : Option ℕ
  maintenanceReason : String
  deriving DecidableEq

namespace PlatformStatus

def toCache (status : PlatformStatus) : CachedStatus where
  mode := status.mode
  outboundHalted := if status.outboundHalted then "1" else "0"
  maintenance := status.maintenance
  maintenanceEndsAt := status.maintenanceEndsAt
  maintenanceReason := (status.maintenanceReason.map Subtype.val).getD ""

def ofCache (cached : CachedStatus) : PlatformStatus where
  mode := cached.mode
  outboundHalted := cached.outboundHalted = "1"
  maintenance := cached.maintenance
  maintenanceEndsAt := cached.maintenanceEndsAt
  maintenanceReason :=
    if h : cached.maintenanceReason = "" then Option.none else some ⟨cached.maintenanceReason, h⟩

/-- The cache gives back what was written. -/
theorem ofCache_toCache (status : PlatformStatus) : ofCache status.toCache = status := by
  obtain ⟨mode, halted, phase, endsAt, reason⟩ := status
  cases reason with
  | none => cases halted <;> rfl
  | some reason =>
    have hreason : (if h : reason.val = "" then Option.none else some ⟨reason.val, h⟩) =
        some reason := dif_neg reason.property
    cases halted <;> simp [ofCache, toCache, hreason]

end PlatformStatus

/-- `_MEMO_TTL_S` -/
def memoTtl : ℕ := 5000

/-- `_CACHE_TTL_S` -/
def cacheTtl : ℕ := 15000

/-- Where a call is. `began` is its `now`, and `process` the one it runs in. -/
inductive Call where
  | idle
  | reading (process began : ℕ)
  | sizing (process began : ℕ) (cached : Option CachedStatus)
  | missing (process began : ℕ)
  | writing (process began : ℕ) (status : PlatformStatus)
  | keeping (process began : ℕ) (status : PlatformStatus)
  | returned (began : ℕ) (status : PlatformStatus)
  | setting (process : ℕ) (mode : Option LoadShedMode) (outboundHalted : Option Bool)
  | forgetting (process : ℕ)
  | invalidating (process : ℕ)
  | failed
  deriving DecidableEq

/-- The clock, the durable row, the key with its expiry, each process's memo, and the calls. -/
structure Shed where
  clock : ℕ := 0
  durable : PlatformStatus := {}
  cache : Option (CachedStatus × ℕ) := none
  memo : ℕ → Option (ℕ × PlatformStatus) := fun _ => none
  call : ℕ → Call := fun _ => .idle

namespace Shed

/-- Call `i` goes on at `c`. -/
def goto (s : Shed) (i : ℕ) (c : Call) : Shed := { s with call := Function.update s.call i c }

/-- The key, while it has not expired. -/
def key (s : Shed) : Option (CachedStatus × ℕ) := s.cache.filter fun k => s.clock < k.2

/-- `get_platform_status` up to its first step outside the process. -/
def get (s : Shed) (i process : ℕ) : Shed :=
  match s.memo process with
  | some (made, status) =>
    if s.clock - made < memoTtl then s.goto i (.returned s.clock status)
    else s.goto i (.reading process s.clock)
  | none => s.goto i (.reading process s.clock)

/-- The `UPDATE` of `set_platform_status`. -/
def writeDurable (s : Shed) (mode : Option LoadShedMode) (outboundHalted : Option Bool) : Shed :=
  { s with durable :=
      { s.durable with
        mode := mode.getD s.durable.mode
        outboundHalted := outboundHalted.getD s.durable.outboundHalted } }

/-- The next step of call `i`; `ok` says whether the cache, or the database, answers. A cached
value whose key has no life left when its `ttl` is read is not trusted. -/
def act (s : Shed) (i : ℕ) (ok : Bool) : Shed :=
  match s.call i with
  | .reading process began =>
    if ok then s.goto i (.sizing process began (s.key.map Prod.fst))
    else s.goto i (.missing process began)
  | .sizing process began cached =>
    match cached with
    | some cached =>
      if ok ∧ s.key.isSome then s.goto i (.keeping process began (.ofCache cached))
      else s.goto i (.missing process began)
    | none => s.goto i (.missing process began)
  | .missing process began =>
    if ok then s.goto i (.writing process began s.durable) else s.goto i .failed
  | .writing process began status =>
    if ok then
      { s.goto i (.keeping process began status) with
        cache := some (status.toCache, s.clock + cacheTtl) }
    else s.goto i (.keeping process began status)
  | .keeping process began status =>
    { s.goto i (.returned began status) with
      memo := Function.update s.memo process (some (began, status)) }
  | .setting process mode outboundHalted =>
    if ok then (s.writeDurable mode outboundHalted).goto i (.forgetting process)
    else s.goto i .failed
  | .forgetting process =>
    { s.goto i (.invalidating process) with memo := Function.update s.memo process none }
  | .invalidating process =>
    if ok then { s.goto i (.missing process s.clock) with cache := none }
    else s.goto i (.missing process s.clock)
  | _ => s

end Shed

inductive ShedAction where
  | get (i process : ℕ)
  | set (i process : ℕ) (mode : Option LoadShedMode) (outboundHalted : Option Bool)
  | act (i : ℕ) (ok : Bool)
  | pass (time : ℕ)
  | moveWindow (phase : MaintenancePhase) (endsAt : Option ℕ) (reason : Option Reason)
  | flush
  deriving DecidableEq

namespace Shed

/-- A step: of a call, of the clock, of whoever moves the maintenance window, or the loss of the
cache. -/
def step (s : Shed) : ShedAction → Shed
  | .get i process => if s.call i = .idle then s.get i process else s
  | .set i process mode outboundHalted =>
    if s.call i = .idle then
      if mode = none ∧ outboundHalted = none then s.get i process
      else s.goto i (.setting process mode outboundHalted)
    else s
  | .act i ok => s.act i ok
  | .pass time => { s with clock := s.clock + time }
  | .moveWindow phase endsAt reason =>
    { s with durable :=
        { s.durable with
          maintenance := phase
          maintenanceEndsAt := endsAt
          maintenanceReason := reason } }
  | .flush => { s with cache := none }

end Shed

end Platform

end Calevate
