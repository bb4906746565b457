import FunctionDocs.Coverage.Analysis
import FunctionDocs.Coverage.Percent
import FunctionDocs.Entry

/-!
# Progress of a documentation

How much of a documentation is done: how many functions have no open place at all, and how many descriptions, parameters,
template parameters and results are described.
-/

namespace FunctionDocs.Coverage

/-- How much of a documentation is done. -/
structure Stats where
  functions : Nat := 0
  done : Nat := 0
  briefDone : Nat := 0
  tparamsDone : Nat := 0
  tparams : Nat := 0
  paramsDone : Nat := 0
  params : Nat := 0
  returnDone : Nat := 0
  deriving DecidableEq, Repr

def Stats.add (s : Stats) (comment : Text) : Stats :=
  let a := analyze comment
  { functions := s.functions + 1
    done := s.done + (!hasTodo comment).toNat
    briefDone := s.briefDone + (!a.briefOpen).toNat
    tparamsDone := s.tparamsDone + (a.tparams - a.tparamsOpen)
    tparams := s.tparams + a.tparams
    paramsDone := s.paramsDone + (a.params - a.paramsOpen)
    params := s.params + a.params
    returnDone := s.returnDone + (!a.returnOpen).toNat }

def Stats.ofComments (comments : List Text) : Stats := comments.foldl Stats.add {}

/-- The comments of entries; an entry whose comment has an empty place cannot be searched. -/
def commentsOf (es : List Entry) : Except Failure (List Text) :=
  es.mapM fun e => e.doxygenText (.notSearchable "NoneType")

def Stats.ofEntries (es : List Entry) : Except Failure Stats := do
  return Stats.ofComments (← commentsOf es)

abbrev Figures := List (Text × Int)

def Figures.get (fs : Figures) (name : Text) : Except Failure Int :=
  require name ((fs.find? (·.1 == name)).map (·.2))

/-- The stats as figures, with the percentages. -/
def Stats.figures (s : Stats) : Figures :=
  [("total_funcs", s.functions), ("done_funcs", s.done), ("percent_done", percentOf s.done s.functions),
   ("brief_done", s.briefDone), ("percent_brief_done", percentOf s.briefDone s.functions),
   ("tparams_done", s.tparamsDone), ("total_tparams", s.tparams),
   ("percent_tparams_done", percentOf s.tparamsDone s.tparams),
   ("params_done", s.paramsDone), ("total_params", s.params), ("percent_params_done", percentOf s.paramsDone s.params),
   ("return_done", s.returnDone), ("percent_return_done", percentOf s.returnDone s.functions)]

end FunctionDocs.Coverage
