import InkCache.Js
import InkCache.Lib.OrderedMap
import InkCache.Lib.StableSort

/-!
# The access predictor (`src/core/access-predictor.ts`)

Counts are exact, and a probability is an exact fraction.
-/

namespace InkCache

open Lib

structure Prediction where
  key : JsString
  count : ℕ
  probability : ℚ
  deriving DecidableEq

/-- How often each key has come after one. -/
abbrev Candidates := OrderedMap JsString ℕ

structure AccessPredictor where
  transitions : OrderedMap JsString Candidates
  lastKey : Option JsString
  maxTrackedKeys : ℕ
  maxCandidatesPerKey : ℕ

/-- `DEFAULT_MAX_TRACKED_KEYS` -/
def defaultMaxTrackedKeys : ℕ := 2000

/-- `DEFAULT_MAX_CANDIDATES_PER_KEY` -/
def defaultMaxCandidatesPerKey : ℕ := 20

namespace Candidates

/-- The loop that keeps the first of the least observed; `none` is a count of `Infinity`. -/
def worst (candidates : Candidates) : Option (JsString × ℕ) :=
  candidates.entries.foldl (fun worst e =>
    match worst with
    | none => some e
    | some w => if e.2 < w.2 then some e else some w) none

/-- Counts a key, and drops the least observed if there are then too many. -/
def observe (maxCandidatesPerKey : ℕ) (key : JsString) (candidates : Candidates) : Candidates :=
  let candidates := candidates.set key ((candidates.get? key).getD 0 + 1)
  if maxCandidatesPerKey < candidates.size then
    match worst candidates with
    | none => candidates
    | some w => candidates.delete w.1
  else candidates

def total (candidates : Candidates) : ℕ := (candidates.entries.map Prod.snd).sum

end Candidates

namespace AccessPredictor

def new (maxTrackedKeys : ℕ := defaultMaxTrackedKeys)
    (maxCandidatesPerKey : ℕ := defaultMaxCandidatesPerKey) : AccessPredictor where
  transitions := .empty
  lastKey := none
  maxTrackedKeys := maxTrackedKeys
  maxCandidatesPerKey := maxCandidatesPerKey

/-- The transitions with room for those from a key, and the candidates it has so far. -/
def candidatesFrom (source : JsString) (p : AccessPredictor) :
    OrderedMap JsString Candidates × Candidates :=
  match p.transitions.get? source with
  | some candidates => (p.transitions, candidates)
  | none => (p.transitions.insertBounded p.maxTrackedKeys source .empty, .empty)

def record (key : JsString) (p : AccessPredictor) : AccessPredictor :=
  match p.lastKey with
  | none => { p with lastKey := some key }
  | some source =>
    if source = key then { p with lastKey := some key }
    else
      let (transitions, candidates) := p.candidatesFrom source
      -- the candidates are counted where they are in the map
      { p with
        lastKey := some key
        transitions := transitions.set source (candidates.observe p.maxCandidatesPerKey key) }

def predict (key : JsString) (topN : ℕ) (p : AccessPredictor) : List Prediction :=
  match p.transitions.get? key with
  | none => []
  | some candidates =>
    if candidates.size = 0 then []
    else
      let sorted := stableSort (fun e => OrderDual.toDual e.2) candidates.entries
      (sorted.take topN).map fun e =>
        { key := e.1, count := e.2, probability := (e.2 : ℚ) / candidates.total }

/-- After a stream of requested keys. -/
def recordAll (keys : List JsString) (p : AccessPredictor) : AccessPredictor :=
  keys.foldl (fun p key => p.record key) p

/-- The candidates that are kept for a key. -/
def candidates (key : JsString) (p : AccessPredictor) : Candidates :=
  (p.transitions.get? key).getD .empty

end AccessPredictor

end InkCache
