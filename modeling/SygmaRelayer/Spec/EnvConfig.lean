import Mathlib.Data.List.Infix
import SygmaRelayer.Lib.NestedMap
import SygmaRelayer.Lib.Text

/-! The configuration in environment variables (`config/env.go`): the parts of a variable's name
between underscores are the keys under which its value is mounted. -/

namespace Sygma.Env

open NestedMap

/-- A `map[string]interface{}` of strings and such maps. -/
abbrev Structure := String → Option (Node String String)

/-- `mountMap` with the segments `i :: rest`. A map that is not there is made, and what is no map
is left alone. -/
def mountMap (m : Structure) (i : String) : List String → String → Structure
  | [], v => Function.update m i (some (.leaf v))
  | j :: rest, v =>
    match (m i).getD (.map empty) with
    | .map asMap => Function.update m i (some (.map (mountMap asMap j rest v)))
    | .leaf _ => m

/-- An environment variable. -/
structure Var where
  name : String
  value : String
deriving DecidableEq, Repr

/-- `strings.Split` of the name, which has at least one part. -/
def Var.segments (x : Var) : List String := Text.split '_' x.name

theorem Var.segments_ne_nil (x : Var) : x.segments ≠ [] := Text.split_ne_nil '_' x.name

def mount (m : Structure) (x : Var) : Structure :=
  mountMap m (x.segments.head x.segments_ne_nil) x.segments.tail x.value

/-- The variables are mounted one after the other. -/
def mountAll (vars : List Var) : Structure := vars.foldl mount empty

def EnvPrefix : String := "SYG"

/-- `strings.SplitN` at the first equals sign; `none` if there is no second part. -/
def splitPair (e : String) : Option Var :=
  match e.toList.dropWhile (· ≠ '=') with
  | [] => none
  | _ :: value => some ⟨String.ofList (e.toList.takeWhile (· ≠ '=')), String.ofList value⟩

/-- The body of the loop over `os.Environ`; `none` is an index out of range. -/
def loadEntry (m : Structure) (e : String) : Option Structure :=
  if EnvPrefix.toList <:+: e.toList then (splitPair e).map (mount m) else some m

/-- `loadENVToJsonStructure` up to the marshalling. -/
def loadENVToJsonStructure (environ : List String) : Option Structure :=
  environ.foldlM loadEntry empty

end Sygma.Env
