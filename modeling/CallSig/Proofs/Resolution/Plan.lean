import CallSig.Proofs.Resolution.Shape
import CallSig.Proofs.Resolution.Steps

/-!
# `CallSig.Proofs.Resolution.Plan` — resolution as asking for parts and settling

A token without an entry is resolved by asking for the values of other tokens, one after the other, and by
settling it with what a search finds. Which token is asked for next depends on the values so far, never on the
lexicon. The plan of a token writes this down as a tree, and `typeAt_succ_miss` says that resolution performs it.
Every proof about whole resolutions is then an induction with two cases, `finish` and `ask`.

## Contents
- **Plans.** `Plan`, `Plan.perform`, `Plan.askEach`.
- **Plans of tokens.** `Plan.ofFormer`, `Plan.atom`, `Plan.ofToken`.
- **Resolution performs plans.** `atom_eq_perform`, `applyFormer_eq_perform`, `typeAt_succ_miss`, `typeAt_hit`.
- **Parts.** `Plan.Asks`, `asks_ofToken`: a plan asks for parts of the token and for targets of aliases.
-/

namespace CallSig
namespace Lexicon

open Text

/-! ## Plans -/

/-- How a token without an entry is resolved. -/
inductive Plan
  /-- Search, then keep what was found or give up for this reason. -/
  | finish (search : Search) (reason : MissReason)
  /-- Resolve another token, and go on with its value. -/
  | ask (part : String) (next : Value → Plan)

namespace Plan

/-- Keeps this value. -/
def keep (value : Value) : Plan := finish (.always (some value)) .unknownToken

/-- Gives up for this reason. -/
def quit (reason : MissReason) : Plan := finish (.always none) reason

/-- Performs a plan for a token; `resolve` answers what it asks for. -/
def perform (resolve : String → LexiconM Value) (token : String) : Plan → LexiconM Value
  | finish search reason => settle token search reason
  | ask part next => do
    let value ← resolve part
    perform resolve token (next value)

/-- Asks for tokens from left to right, and goes on with the types they stand for as elements. -/
def askEach : List String → (List TypeExpr → Plan) → Plan
  | [], next => next []
  | arg :: args, next => ask (trimmed arg) fun value => askEach args fun rest => next (value.elementType :: rest)

/-! ## Plans of tokens -/

/-- The plan for a container with this value, applied to arguments. -/
def ofFormer (args : List String) : Value → Plan
  | .former (.matrix stem) =>
    finish (.matrix stem args) (if (dimensions? args).isSome then .unknownToken else .badArguments)
  | .former .arrayLike => askEach args fun
    | [element] => keep (.arrayLike element)
    | _ => quit .badArguments
  | .former (.container kind) => askEach args fun types => keep (.type (.generic kind types))
  | .type (.named path []) => askEach args fun types => keep (.type (.named path types))
  | .type (.generic kind []) => askEach args fun types => keep (.type (.generic kind types))
  | _ => quit .notAContainer

/-- The plan for a token that is taken as a whole. -/
def atom (aliases : Dict String) (scope? : Option String) (token : String) : Plan :=
  match aliases.get? token with
  | some target => ask (trimmed target) keep
  | none => finish (.ofToken scope? token) .unknownToken

/-- The plan for a type token. -/
def ofToken (aliases : Dict String) (depth : Nat) (scope? : Option String) (token : String) : Plan :=
  match TypeShape.ofToken depth token with
  | .atom text => atom aliases scope? text
  | .array element length? => ask element fun value => keep (arrayOf value.elementType length?)
  | .generic container args => ask container (ofFormer args)

end Plan

/-! ## Resolution performs plans -/

variable {l : Lexicon} {token : String} {depth : Nat} {scope? : Option String}

theorem perform_askEach (resolve : String → LexiconM Value) (token : String) (args : List String)
    (next : List TypeExpr → Plan) :
    (Plan.askEach args next).perform resolve token =
      (do let types ← typeArgs resolve args
          (next types).perform resolve token : LexiconM Value) := by
  induction args generalizing next with
  | nil => rfl
  | cons arg args ih =>
    funext l
    show ((Plan.askEach args fun rest => next ((resolve (trimmed arg) l).1.elementType :: rest)).perform
      resolve token) (resolve (trimmed arg) l).2 = _
    rw [ih]
    rfl

theorem applyFormer_eq_perform (resolve : String → LexiconM Value) (token : String) (args : List String)
    (former : Value) :
    applyFormer resolve token args former = (Plan.ofFormer args former).perform resolve token := by
  cases former with
  | former f =>
    cases f with
    | matrix stem => exact matrix_eq_settle token stem args
    | container kind =>
      show _ = (Plan.askEach args _).perform resolve token
      rw [perform_askEach]
      rfl
    | arrayLike =>
      show _ = (Plan.askEach args _).perform resolve token
      rw [perform_askEach]
      funext l
      show (match (typeArgs resolve args l).1 with
        | [element] => remember token (.arrayLike element)
        | _ => giveUp token .badArguments : LexiconM Value) (typeArgs resolve args l).2 =
        (Plan.perform resolve token (match (typeArgs resolve args l).1 with
          | [element] => Plan.keep (.arrayLike element)
          | _ => Plan.quit .badArguments)) (typeArgs resolve args l).2
      rcases (typeArgs resolve args l).1 with _ | ⟨element, _ | ⟨_, _⟩⟩ <;> rfl
  | type t =>
    cases t with
    | named path params | generic kind params =>
      cases params with
      | nil =>
        show _ = (Plan.askEach args _).perform resolve token
        rw [perform_askEach]
        rfl
      | cons param params => rfl
    | builtin | optional | unmapped => rfl
  | output | arrayLike | literal | constant | sentinel | unmapped => rfl

theorem atom_eq_perform (follow : String → LexiconM Value) (scope? : Option String) (token : String) (l : Lexicon) :
    atom follow scope? token l = (Plan.atom l.aliases scope? token).perform follow token l := by
  unfold atom Plan.atom
  simp only [bind, StateT.bind, get, getThe, MonadStateOf.get, StateT.get, pure]
  cases l.aliases.get? token with
  | some target => rfl
  | none =>
    -- the expression is tried once; only where it fails does the scope matter
    unfold Plan.perform settle Search.ofToken Search.or Search.expression
    rcases hrun : tryExpression token l with ⟨found, l'⟩
    simp only [bind, StateT.bind, hrun]
    cases found with
    | some value => rfl
    | none => cases scope? <;> rfl

theorem typeAt_hit {value : Value} (h : l.known? token = some value) (depth : Nat) (scope? : Option String)
    (hops : Nat) : typeAt depth scope? hops token l = (value, (l.cached token).2) := by
  cases hops <;> exact orCached_hit h _

theorem typeAt_zero_miss (h : l.known? token = none) (depth : Nat) (scope? : Option String) :
    typeAt depth scope? 0 token l = (.unmapped token, (l.cached token).2.settled token .tooDeep none) :=
  orCached_miss h _

/-- **Resolution performs the plan of a token** that has no entry. -/
theorem typeAt_succ_miss (h : l.known? token = none) (ht : trimmed token = token) (depth : Nat)
    (scope? : Option String) (hops : Nat) :
    typeAt depth scope? (hops + 1) token l =
      (Plan.ofToken l.aliases depth scope? token).perform (typeAt depth scope? hops) token (l.cached token).2 := by
  rw [typeAt, orCached_miss h]
  unfold Plan.ofToken
  cases hs : TypeShape.ofToken depth token with
  | atom text =>
    -- the result is kept under the token, the atom is looked up under its text: they are one
    rw [TypeShape.text_of_ofToken_atom hs ht]
    dsimp only
    rw [atom_eq_perform, (counted_cached l token).aliases]
  | array element length? => rfl
  | generic container args =>
    show applyFormer _ token args _ _ = _
    rw [applyFormer_eq_perform]
    rfl

/-! ## Parts -/

namespace Plan

/-- Every token that the plan may ask for has the property. -/
def Asks (T : String → Prop) : Plan → Prop
  | finish _ _ => True
  | ask part next => T part ∧ ∀ value, (next value).Asks T

variable {T : String → Prop}

theorem Asks.mono {T' : String → Prop} {plan : Plan} (h : plan.Asks T) (hT : ∀ p, T p → T' p) : plan.Asks T' := by
  induction plan with
  | finish search reason => trivial
  | ask part next ih => exact ⟨hT part h.1, fun value => ih value (h.2 value)⟩

theorem asks_askEach {args : List String} {next : List TypeExpr → Plan} (ha : ∀ a ∈ args, T (trimmed a))
    (hn : ∀ types, (next types).Asks T) : (askEach args next).Asks T := by
  induction args generalizing next with
  | nil => exact hn []
  | cons arg args ih =>
    refine ⟨ha arg List.mem_cons_self, fun value => ?_⟩
    exact ih (fun a hm => ha a (List.mem_cons_of_mem _ hm)) fun rest => hn _

theorem asks_ofFormer {args : List String} (ha : ∀ a ∈ args, T (trimmed a)) (former : Value) :
    (ofFormer args former).Asks T := by
  unfold ofFormer
  -- a matrix reads its arguments as numbers, and what is no container reads none
  split
  · trivial
  · refine asks_askEach ha fun types => ?_
    split <;> trivial
  · exact asks_askEach ha fun _ => trivial
  · exact asks_askEach ha fun _ => trivial
  · exact asks_askEach ha fun _ => trivial
  · trivial

theorem asks_atom {aliases : Dict String} {scope? : Option String} {token : String}
    (h : ∀ target, aliases.get? token = some target → T (trimmed target)) :
    (atom aliases scope? token).Asks T := by
  unfold atom
  cases ha : aliases.get? token with
  | none => trivial
  | some target => exact ⟨h target ha, fun _ => trivial⟩

/-- A plan asks for the parts of its token and for the targets of aliases. -/
theorem asks_ofToken {aliases : Dict String} {depth : Nat} {scope? : Option String} {token : String}
    (hp : ∀ p ∈ (TypeShape.ofToken depth token).parts, T p)
    (ha : ∀ text target, aliases.get? text = some target → T (trimmed target)) :
    (ofToken aliases depth scope? token).Asks T := by
  unfold ofToken
  cases hs : TypeShape.ofToken depth token with
  | atom text => exact asks_atom (ha text)
  | array element length? =>
    rw [hs] at hp
    exact ⟨hp element List.mem_cons_self, fun _ => trivial⟩
  | generic container args =>
    rw [hs] at hp
    refine ⟨hp container List.mem_cons_self, asks_ofFormer fun a hm => ?_⟩
    exact hp (trimmed a) (List.mem_cons_of_mem _ (List.mem_map_of_mem hm))

end Plan

end Lexicon
end CallSig
