import MiLsp.Graph.Store
import MiLsp.Library.Json

namespace MiLsp.Output

open Library.Json MiLsp.Graph

def textSize (s : String) : ℕ := textLength jsonCharLength s

def objectSize (members : Members) : ℕ := recordLength jsonCharLength members

def textMember (name text : String) : Members := optionalText jsonCharLength name text

structure EnvelopeError where
  kind : String := ""
  code : String := ""
  message : String := ""
  stage : String := ""
  hintCode : String := ""
  retryable : Bool := false
  reasonCode : String := ""
  detail : String := ""

def EnvelopeError.size (e : EnvelopeError) : ℕ :=
  objectSize (textMember "kind" e.kind ++ textMember "code" e.code ++
    textMember "message" e.message ++ textMember "stage" e.stage ++
    textMember "hint_code" e.hintCode ++ optionalFlag "retryable" e.retryable ++
    textMember "reason_code" e.reasonCode ++ textMember "detail" e.detail)

/-- Where a continuation leads; `others` are the members that `q` never sets. -/
structure ContinuationTarget where
  op : String
  query : String := ""
  workspace : String := ""
  others : Members := []

def ContinuationTarget.size (t : ContinuationTarget) : ℕ :=
  objectSize (("op", textSize t.op) :: textMember "query" t.query ++
    textMember "workspace" t.workspace ++ t.others)

structure Continuation where
  reason : String
  next : ContinuationTarget
  alternate : Option ContinuationTarget := none
  cursor : String := ""

def Continuation.size (c : Continuation) : ℕ :=
  objectSize (("reason", textSize c.reason) :: ("next", c.next.size) ::
    optionalMember "alternate" (c.alternate.map (·.size)) ++ textMember "cursor" c.cursor)

structure EnvelopeOmission where
  reason : String := ""
  errorCode : String := ""
  others : Members := []

def EnvelopeOmission.size (o : EnvelopeOmission) : ℕ :=
  objectSize (textMember "reason" o.reason ++ textMember "error_code" o.errorCode ++ o.others)

structure DiagnosticsSummary where
  returned : Int64
  others : Members

def DiagnosticsSummary.size (d : DiagnosticsSummary) : ℕ :=
  objectSize (("returned", intLength d.returned.toInt) :: d.others)

end MiLsp.Output
