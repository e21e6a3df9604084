import JyQipai.Zajindan.Eggs
import JyQipai.Lib.Splits

/-!
# The search for splits

`get_resolve_award` with the four variables that all levels of its search share and each level
sets back, for awards from any ordered group.  A call of `resolve_award` that has ended has set
them back, so that the search is the one of `Room.resolveAward`, which passes them on.
-/

namespace JyQipai.Zajindan.Resolve

open Lib

variable {M : Type} [AddCommGroup M] [LinearOrder M]

/-- The variables that the levels of `resolve_award` share. -/
structure Search (M : Type) where
  nowResolveNum : M
  nowResolveIndex : Int := 0
  nowResolveVec : List M := []
  emptyNum : Int := 0
  canResolveVec : List (List M) := []

namespace Search

def push (s : Search M) (a : M) : Search M :=
  { s with
    nowResolveIndex := s.nowResolveIndex + 1
    nowResolveNum := s.nowResolveNum + a
    nowResolveVec := s.nowResolveVec ++ [a] }

def pop (s : Search M) (a : M) : Search M :=
  { s with
    nowResolveIndex := s.nowResolveIndex - 1
    nowResolveNum := s.nowResolveNum - a
    nowResolveVec := s.nowResolveVec.dropLast }

def found (s : Search M) : Search M :=
  { s with canResolveVec := s.canResolveVec ++ [s.nowResolveVec] }

def addEmpty (s : Search M) (n : Int) : Search M := { s with emptyNum := s.emptyNum + n }

end Search

section Code

variable (useToResolve : List M) (awardValue : M) (resolveMinNum resolveMaxNum : Int)

/-- `resolve_award`, whose indices begin with 1: its result, `false` for none, and the variables. -/
def resolveAward : Nat → Nat → Search M → Option (Bool × Search M)
  | 0, _, _ => none
  | fuel + 1, resolveIndex, s =>
      match useToResolve[resolveIndex - 1]? with
      | none => some (true, s)
      | some a =>
          if resolveMaxNum ≤ s.nowResolveIndex then some (true, s)
          else if 2 < s.emptyNum then some (true, s)
          else
            let s := s.push a
            if awardValue ≤ s.nowResolveNum then
              let s :=
                if s.nowResolveNum = awardValue ∧ resolveMinNum ≤ s.nowResolveIndex ∧
                  s.nowResolveIndex ≤ resolveMaxNum then s.found else s
              if s.nowResolveNum = awardValue ∧ s.nowResolveIndex < resolveMinNum then
                let s := if a = 0 then s.addEmpty 1 else s
                (resolveAward fuel resolveIndex s).bind fun (isCanot, s) =>
                  if isCanot then
                    if a = 0 then some (isCanot, (s.pop a).addEmpty (-1))
                    else resolveAward fuel (resolveIndex + 1) (s.pop a)
                  else resolveAward fuel (resolveIndex + 1) (s.pop a)
              else resolveAward fuel (resolveIndex + 1) (s.pop a)
            else
              (resolveAward fuel resolveIndex s).bind fun (isCanot, s) =>
                if isCanot then
                  (resolveAward fuel (resolveIndex + 1) (s.pop a)).map fun (_, s) => (isCanot, s)
                else some (isCanot, s)

end Code

def useToResolve : M → List M → List M
  | _, [] => []
  | last, a :: rest => if a ≠ last then a :: useToResolve a rest else useToResolve last rest

def getResolveAward (award : List M) (awardId : Nat) (awardValue : M)
    (resolveMinNum resolveMaxNum : Int) (fuel : Nat) : Option (List (List M)) :=
  (resolveAward (useToResolve 0 (award.drop (awardId - 1))) awardValue resolveMinNum resolveMaxNum
    fuel 1 { nowResolveNum := 0 }).map fun (_, s) => s.canResolveVec

end JyQipai.Zajindan.Resolve
