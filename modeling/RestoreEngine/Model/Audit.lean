import RestoreEngine.Effects.Pool
import RestoreEngine.Model.Json
import RestoreEngine.Model.Records
import RestoreEngine.Model.Text

/-!
# `audit.py`: the audit log

The actions of operators are pushed to a list in Redis, the newest first, and after each push the
list is trimmed. Every command of Redis is a step of its own, for the handlers of the API run beside
one another.

The list holds the entries themselves: their texts in JSON are left out, and with them lines that
cannot be read.
-/

namespace RestoreEngine.Audit

open Effects Program

/-- An entry of the log. -/
structure Entry where
  ts : Instant
  action : String
  actor : String
  detail : Json

/-- The list, the newest entry first. What it has ever received, in the same order, is kept beside
it; no command reads it. -/
structure Store where
  lines : List Entry
  appended : List Entry

/-- What a process issues. -/
inductive Op
  | utcNow
  | lpush (entry : Entry)
  | ltrim (stop : ℕ)
  | lrange (start stop : ℕ)

/-- The replies. -/
abbrev Op.Res : Op → Type
  | utcNow => Instant
  | lpush _ | ltrim _ => Unit
  | lrange _ _ => List Entry

/-- The calls of `audit.py`. -/
abbrev commands : Signature := ⟨Op, Op.Res⟩

/-- `lrange` of a list. -/
def range (start stop : ℕ) (l : List Entry) : List Entry := (l.take (stop + 1)).drop start

/-- How the store answers. A reading of the clock may be anything. -/
def environment : Environment commands Store Instant
  | .utcNow, now, s => some (now, s)
  | .lpush entry, _, s => some ((), ⟨entry :: s.lines, entry :: s.appended⟩)
  | .ltrim stop, _, s => some ((), { s with lines := range 0 stop s.lines })
  | .lrange start stop, _, s => some (range start stop s.lines, s)

/-- Issue one call. -/
abbrev issue (o : Op) : Program commands Unit o.Res := perform (S := commands) o

/-- `_audit_retain`, of `audit_retain` in the configuration. -/
def auditRetain (configured : Option ℤ) : ℕ :=
  (max 100 ((configured.filter (· ≠ 0)).getD 2000)).toNat

/-- `str(v or default).strip() or default`. -/
def strippedOr (v default : String) : String :=
  if Text.strip v = "" then default else Text.strip v

/-- `append_audit`. -/
def appendAudit (configured : Option ℤ) (action actor : String) (detail : Json) :
    Program commands Unit Entry := do
  let ts ← issue .utcNow
  let entry : Entry :=
    { ts
      action := strippedOr action "unknown"
      actor := strippedOr actor "ui"
      detail := if detail.truthy then detail else .obj [] }
  issue (.lpush entry)
  issue (.ltrim (auditRetain configured - 1))
  return entry

/-- `list_audit`. -/
def listAudit (limit offset : ℤ) : Program commands Unit (List Entry) :=
  let limit := (max 1 (min 500 limit)).toNat
  let offset := (max 0 offset).toNat
  issue (.lrange offset (offset + limit - 1))

/-- What a process calls. -/
inductive Call
  | append (action actor : String) (detail : Json)
  | list (limit offset : ℤ)

/-- A process that makes these calls, one after the other. -/
def performCalls (configured : Option ℤ) : List Call → Program commands Unit Unit
  | [] => return ()
  | .append action actor detail :: calls => do
    let _ ← appendAudit configured action actor detail
    performCalls configured calls
  | .list limit offset :: calls => do
    let _ ← listAudit limit offset
    performCalls configured calls

end RestoreEngine.Audit
