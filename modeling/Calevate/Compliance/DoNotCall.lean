import Mathlib.Data.List.MinMax
import Mathlib.Data.Prod.Lex

/-!
# The do-not-call list

The rows of `dnc_list`, one account's own and the platform's, the opt-out records of the
consent ledger, and the writers: the bulk add at both scopes, the single add, the removal,
the attested restore and the lifting of a platform-wide entry. The bulk add is three steps,
its read, its INSERT and the rest of its transaction, and anything may come between; each of
the others decides on a row it holds locked, or in its one statement.
-/

namespace Calevate.Compliance

/-! ## Rows -/

/-- `SOURCES` and `GLOBAL_SOURCES`. -/
inductive Source where
  | customerRequest
  | callOptout
  | manual
  | regulator
  | platformBlock
  deriving DecidableEq, Repr

namespace Source

/-- In `SOURCES` for an account's list, in `GLOBAL_SOURCES` for the platform's. -/
def allowedIn (source : Source) : Option ℕ → Bool
  | some _ => source ≠ .platformBlock
  | none => source = .regulator || source = .platformBlock

/-- `DNC_REMOVABLE_SOURCES`. -/
def removable (source : Source) : Bool := source = .manual

/-- `RESTORABLE_SOURCES`: the person's own request. -/
def restorable (source : Source) : Bool := source = .callOptout || source = .customerRequest

end Source

/-- A row of `dnc_list`; without a tenant its scope is global. -/
structure Entry where
  id : ℕ
  tenant : Option ℕ
  phone : String
  source : Source
  deriving DecidableEq, Repr

/-- A row of `consent_ledger` that withdraws the marketing purpose. -/
structure Evidence where
  id : ℕ
  tenant : ℕ
  phone : String
  capturedAt : ℕ
  deriving DecidableEq, Repr

/-- A bulk add underway, at an account's scope or the platform's: what it read as not yet
listed, and once its INSERT has run the numbers this one inserts. -/
structure Adding where
  id : ℕ
  tenant : Option ℕ
  source : Source
  unique : List String
  malformed : ℕ
  fresh : List String
  inserting : Option (List String)
  deriving DecidableEq, Repr

structure World where
  entries : List Entry
  evidence : List Evidence
  adding : List Adding
  nextId : ℕ
  deriving DecidableEq, Repr

/-- The code of a refusal. -/
inductive Problem where
  | notFound
  | unknownSource
  | globalEntry
  | consumerOptout
  | notRestorable
  | restoreNoteRequired
  | restoreNoteTooLong
  | restoreStale
  deriving DecidableEq, Repr

/-- `AddResult`. -/
structure AddResult where
  added : ℕ
  alreadySuppressed : ℕ
  malformed : ℕ
  deriving DecidableEq, Repr

/-- `RESTORE_GROUNDS`. -/
inductive Ground where
  | neverAsked
  | askedToBeCalled
  deriving DecidableEq, Repr

/-- `RESTORE_NOTE_MIN`. -/
def restoreNoteMin : ℕ := 5

/-- `RESTORE_NOTE_MAX`. -/
def restoreNoteMax : ℕ := 200

namespace World

variable (w : World)

/-- The row of the number on the list of the scope. -/
def onList (tenant : Option ℕ) (phone : String) : Bool :=
  w.entries.any fun entry => entry.tenant = tenant ∧ entry.phone = phone

/-- The do-not-call read of **`person_level_refusal`**. -/
def refuses (tenant : ℕ) (phone : String) : Bool :=
  w.entries.any fun entry =>
    entry.phone = phone ∧ (entry.tenant = some tenant ∨ entry.tenant = none)

/-! ## The bulk add -/

section BulkAdd

variable (normalizePhone : String → Option String)

/-- The numbers of a pasted list, each once. -/
def uniqueNumbers (raw : List String) : List String :=
  (raw.filterMap normalizePhone).eraseDups

/-- Those of the numbers that the read of the scope does not find. -/
def unlisted (tenant : Option ℕ) (phones : List String) : List String :=
  phones.filter fun phone =>
    ¬ w.entries.any fun entry =>
      entry.phone = phone ∧ (entry.tenant = tenant ∨ entry.tenant = none)

/-- **`add_numbers`** and **`add_global_numbers`** up to their read. -/
def readNumbers (id : ℕ) (tenant : Option ℕ) (raw : List String) (source : Source) : World :=
  if ¬ source.allowedIn tenant ∨ uniqueNumbers normalizePhone raw = [] ∨
      w.adding.any (fun call => call.id = id) then
    w
  else
    { w with
      adding :=
        { id := id
          tenant := tenant
          source := source
          unique := uniqueNumbers normalizePhone raw
          malformed := (raw.filter fun number => (normalizePhone number).isNone).length
          fresh := w.unlisted tenant (uniqueNumbers normalizePhone raw)
          inserting := none } :: w.adding }

end BulkAdd

/-- Their INSERT, which does nothing about a number that is on the list by now. -/
def insertNumbers (id : ℕ) : World :=
  { w with
    adding := w.adding.map fun call =>
      if call.id = id ∧ call.inserting = none then
        { call with
          inserting := some (call.fresh.filter fun phone => ¬ w.onList call.tenant phone) }
      else call }

/-- One row of the INSERT, where it still meets no conflict. -/
def insertRow (tenant : Option ℕ) (source : Source) (phone : String) : World :=
  if w.onList tenant phone then w
  else
    { w with
      entries := ⟨w.nextId, tenant, phone, source⟩ :: w.entries
      nextId := w.nextId + 1 }

/-- A row taken up by a stronger source. -/
def upgraded (tenant : ℕ) (phones : List String) (source : Source) (entry : Entry) : Entry :=
  if entry.tenant = some tenant ∧ entry.phone ∈ phones ∧ entry.source.removable ∧
      ¬ source.removable then
    { entry with source := source }
  else entry

/-- The UPDATE of `add_numbers`; the platform's list has none. -/
def upgrade (tenant : Option ℕ) (phones : List String) (source : Source) : World :=
  match tenant with
  | none => w
  | some tenant => { w with entries := w.entries.map (upgraded tenant phones source) }

/-- The bulk add of the id whose INSERT has run, with the rows it inserts. -/
def ready (id : ℕ) : Option (Adding × List String) :=
  (w.adding.find? fun call => call.id = id).bind fun call =>
    call.inserting.map fun inserting => (call, inserting)

/-- The rest of the transaction: the inserted rows are seen, and the UPDATE has run. -/
def commitNumbers (id : ℕ) : World :=
  match w.ready id with
  | none => w
  | some (call, inserting) =>
    { (inserting.foldl (fun w phone => w.insertRow call.tenant call.source phone) w).upgrade
        call.tenant call.unique call.source with
      adding := w.adding.erase call }

/-- What a bulk add answers. -/
def addResult (call : Adding) (inserting : List String) : AddResult where
  added := (inserting.filter fun phone => ¬ w.onList call.tenant phone).length
  alreadySuppressed :=
    call.unique.length - (inserting.filter fun phone => ¬ w.onList call.tenant phone).length
  malformed := call.malformed

/-! ## One number -/

/-- **`add_to_dnc`**. -/
def addToDnc (tenant : ℕ) (phone : String) (source : Source) : World :=
  if w.onList (some tenant) phone then w.upgrade (some tenant) [phone] source
  else w.insertRow (some tenant) source phone

/-- The row of the id, as a session of the tenant sees it. -/
def visible (tenant id : ℕ) : Option Entry :=
  w.entries.find? fun entry =>
    entry.id = id ∧ (entry.tenant = some tenant ∨ entry.tenant = none)

/-- **`remove_entry`**: the row it deletes. -/
def removeEntry (tenant id : ℕ) : Except Problem Entry :=
  match w.visible tenant id with
  | none => .error .notFound
  | some entry =>
    if entry.tenant = none then .error .globalEntry
    else if ¬ entry.source.removable then .error .consumerOptout
    else .ok entry

/-- **`remove_global_entry`**: the row it deletes. -/
def removeGlobalEntry (id : ℕ) : Except Problem Entry :=
  match w.entries.find? fun entry => entry.id = id ∧ entry.tenant = none with
  | none => .error .notFound
  | some entry => .ok entry

/-- `_restore_note`, of a note whose white space has been collapsed. -/
def checkNote (ground : Ground) (note : String) : Except Problem Unit :=
  if ground = .askedToBeCalled ∧ note.length < restoreNoteMin then .error .restoreNoteRequired
  else if restoreNoteMax < note.length then .error .restoreNoteTooLong
  else .ok ()

/-- The id of the newest opt-out record of the number. -/
def newestEvidence (tenant : ℕ) (phone : String) : Option ℕ :=
  ((w.evidence.filter fun record => record.tenant = tenant ∧ record.phone = phone).argmax
    fun record => toLex (record.capturedAt, record.id)).map (·.id)

/-- **`restore_optout`**: the row it deletes. -/
def restoreOptout (tenant id : ℕ) (ground : Ground) (note : String) (latestEvidence : Option ℕ) :
    Except Problem Entry :=
  match checkNote ground note with
  | .error problem => .error problem
  | .ok () =>
    match w.visible tenant id with
    | none => .error .notFound
    | some entry =>
      if entry.tenant = none then .error .globalEntry
      else if ¬ entry.source.restorable then .error .notRestorable
      else if w.newestEvidence tenant entry.phone ≠ latestEvidence then .error .restoreStale
      else .ok entry

/-- The DELETE of the row, where there is one to delete. -/
def delete (found : Except Problem Entry) : World :=
  match found with
  | .error _ => w
  | .ok found => { w with entries := w.entries.filter fun entry => entry.id ≠ found.id }

/-- An opt-out record written. -/
def recordEvidence (tenant : ℕ) (phone : String) (capturedAt : ℕ) : World :=
  { w with
    evidence := ⟨w.nextId, tenant, phone, capturedAt⟩ :: w.evidence
    nextId := w.nextId + 1 }

end World

/-! ## Runs -/

inductive Action where
  | readNumbers (id : ℕ) (tenant : Option ℕ) (raw : List String) (source : Source)
  | insertNumbers (id : ℕ)
  | commitNumbers (id : ℕ)
  | addToDnc (tenant : ℕ) (phone : String) (source : Source)
  | recordEvidence (tenant : ℕ) (phone : String) (capturedAt : ℕ)
  | removeEntry (tenant id : ℕ)
  | removeGlobalEntry (id : ℕ)
  | restoreOptout (tenant id : ℕ) (ground : Ground) (note : String)
      (latestEvidence : Option ℕ)
  deriving DecidableEq, Repr

namespace World

/-- One statement, or the statements of a transaction that nothing comes between. -/
def step (normalizePhone : String → Option String) (w : World) : Action → World
  | .readNumbers id tenant raw source => w.readNumbers normalizePhone id tenant raw source
  | .insertNumbers id => w.insertNumbers id
  | .commitNumbers id => w.commitNumbers id
  | .addToDnc tenant phone source => w.addToDnc tenant phone source
  | .recordEvidence tenant phone capturedAt => w.recordEvidence tenant phone capturedAt
  | .removeEntry tenant id => w.delete (w.removeEntry tenant id)
  | .removeGlobalEntry id => w.delete (w.removeGlobalEntry id)
  | .restoreOptout tenant id ground note latestEvidence =>
    w.delete (w.restoreOptout tenant id ground note latestEvidence)

def empty : World := ⟨[], [], [], 0⟩

def run (normalizePhone : String → Option String) (actions : List Action) : World :=
  actions.foldl (step normalizePhone) empty

end World

end Calevate.Compliance
