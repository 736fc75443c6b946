import Mathlib.Algebra.Ring.Nat
import MiLsp.Library.Strings

namespace MiLsp.Query.Stages

open Library.Strings

structure PipelinePart where
  text : String
  start : ℕ
deriving DecidableEq

structure PipelineToken where
  text : String
  start : ℕ
deriving DecidableEq

structure ParseIssue where
  offset : ℕ
  expected : String
  cause : String
deriving DecidableEq

def unclosed (offset : ℕ) : ParseIssue := ⟨offset, "comillas cerradas", "comillas sin cerrar"⟩

def byteLength (s : List Char) : ℕ := (s.map Char.utf8Size).sum

def isQuote (r : Char) : Bool := r = '\'' || r = '"'

def runes (offset : ℕ) : List Char → List (ℕ × Char)
  | [] => []
  | r :: rest => (offset, r) :: runes (offset + r.utf8Size) rest

def pipelinePart (raw : List Char) (rawStart : ℕ) : PipelinePart where
  text := trimSpace (String.ofList raw)
  start := rawStart + byteLength (raw.takeWhile isSpace)

/-- The variables of the loop; `raw` is the text from `start` up to the character read. -/
structure SplitState where
  out : List PipelinePart := []
  start : ℕ := 0
  raw : List Char := []
  quote : Option Char := none
  quoteStart : ℕ := 0
  escaped : Bool := false

def SplitState.parts (st : SplitState) : List PipelinePart :=
  st.out ++ [pipelinePart st.raw st.start]

def splitStep (st : SplitState) : ℕ × Char → SplitState
  | (i, r) =>
    let next := { st with raw := st.raw ++ [r] }
    if st.escaped then { next with escaped := false }
    else if r = '\\' ∧ st.quote ≠ none then { next with escaped := true }
    else if st.quote ≠ none then
      if some r = st.quote then { next with quote := none } else next
    else if isQuote r then { next with quote := some r, quoteStart := i }
    else if r = '|' then { st with out := st.parts, start := i + 1, raw := [] }
    else next

def splitLoop (s : List Char) : SplitState := (runes 0 s).foldl splitStep {}

def splitPipeline (s : String) : Except ParseIssue (List PipelinePart) :=
  let st := splitLoop s.toList
  if st.quote ≠ none then .error (unclosed st.quoteStart) else .ok st.parts

structure TokenState where
  tokens : List PipelineToken := []
  text : List Char := []
  quote : Option Char := none
  quoteStart : ℕ := 0
  escaped : Bool := false
  active : Bool := false
  tokenStart : ℕ := 0

def TokenState.flush (st : TokenState) : TokenState :=
  if st.active then
    { st with
      tokens := st.tokens ++ [⟨String.ofList st.text, st.tokenStart⟩]
      text := []
      active := false }
  else st

def tokenStep (base : ℕ) (st : TokenState) : ℕ × Char → TokenState
  | (i, r) =>
    if st.escaped then
      { st with text := st.text ++ [r], escaped := false, active := true }
    else if st.quote ≠ none then
      if some r = st.quote then { st with quote := none, active := true }
      else if r = '\\' ∧ st.quote = some '"' then { st with escaped := true, active := true }
      else { st with text := st.text ++ [r], active := true }
    else
      let tokenStart := if st.active then st.tokenStart else base + i
      if isQuote r then
        { st with tokenStart, quote := some r, quoteStart := base + i, active := true }
      else if isSpace r then st.flush
      else { st with tokenStart, text := st.text ++ [r], active := true }

def tokenLoop (base : ℕ) (s : List Char) : TokenState := (runes 0 s).foldl (tokenStep base) {}

def tokenize (s : String) (base : ℕ) : Except ParseIssue (List PipelineToken) :=
  let st := tokenLoop base s.toList
  if st.quote ≠ none then .error (unclosed st.quoteStart) else .ok st.flush.tokens

end MiLsp.Query.Stages
