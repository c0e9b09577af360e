import Cartridge.Provider.Service

/-!
# Prices

What a call of a provider costs, in dollars. Texts are paid for by tokens, and a token is taken to
be four characters; a rest counts as a whole one.
-/

namespace Cartridge.Provider

/-- The number of tokens of a text with so many characters. -/
def tokensOf (length : Nat) : Nat := (length + 3) / 4

def tokens (text : String) : Nat := tokensOf text.length

/-- How the price of a call comes about. -/
inductive Pricing (R : Type) where
  /-- A price for a thousand tokens of prompt and answer, counted apart. -/
  | perThousand (price : R)
  /-- Prices for a million tokens of prompt and of answer. -/
  | perMillion (prompt answer : R)
  /-- A price for a thousand tokens of prompt and answer, counted together. -/
  | together (price : R)
  /-- The same price for each call. -/
  | flat (price : R)
  /-- No price: the model that decides on it is not given by a text. -/
  | undecided

namespace Pricing

variable {R : Type} [Quantity R] [Inhabited R]

/-- What a call costs, if there is a price. -/
def cost? (p : Pricing R) (prompt answer : String) : Option R :=
  match p with
  | .perThousand price =>
    some (Quantity.ofRatio ((tokens prompt + tokens answer : Nat) : Int) 1000 * price)
  | .perMillion promptPrice answerPrice =>
    some (Quantity.ofRatio (tokens prompt) 1000000 * promptPrice +
      Quantity.ofRatio (tokens answer) 1000000 * answerPrice)
  | .together price =>
    some (Quantity.ofRatio (tokensOf (prompt.length + answer.length) : Int) 1000 * price)
  | .flat price => some price
  | .undecided => none

end Pricing

section Kinds

variable {R : Type} [Quantity R] [Inhabited R]

/-- The price of a thousand tokens by which calls are estimated beforehand. -/
def Kind.rate : Kind → R
  | .claude => Quantity.ofRatio 15 1000
  | .openAI => Quantity.ofRatio 10 1000
  | .openRouter => Quantity.ofRatio 8 1000
  | .ownMachine | .bare => Quantity.ofNat 0

/-- Whether a model is one of the cheaper family; undecided for values that hold no texts. -/
def isClaudeModel? : Json → Option Bool
  | .str s => some (Text.contains s "claude")
  | .arr items => some (items.any fun item => string? item = some "claude")
  | .obj entries => some (entries.any (·.1 = "claude"))
  | _ => none

def Service.pricing (s : Service) : Pricing R :=
  match s with
  | .claude .. => .perMillion (Quantity.ofNat 3) (Quantity.ofNat 15)
  | .openAI .. => .perMillion (Quantity.ofNat 30) (Quantity.ofNat 60)
  | .openRouter _ model _ =>
    match isClaudeModel? model with
    | some true => .together (Quantity.ofRatio 15 1000)
    | some false => .together (Quantity.ofRatio 30 1000)
    | none => .undecided
  | .ownMachine _ => .flat (Quantity.ofNat 0)
  | .bare => .perThousand (Kind.rate .bare)

end Kinds

end Cartridge.Provider
