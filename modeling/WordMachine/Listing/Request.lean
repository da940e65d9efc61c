import WordMachine.Listing
import WordMachine.Target

/-! # Requests for a listing

What is asked of the part of the program that lists code: a target, and the form of the offsets.

* **Drafts.** A request may be put together piece by piece. A draft is complete once both pieces are
  there; of two missing pieces the target is named.
* **Outcome.** A listing is shown or the target has no code; listing itself cannot fail. -/

namespace WordMachine.Listing

/-- A request for a listing. -/
structure Request where
  target : String
  /-- Whether offsets are decimal. -/
  decimal : Bool := false
deriving DecidableEq, Repr

/-- A request of which pieces may be missing. -/
structure Draft where
  target : Option String := none
  decimal : Option Bool := none
deriving DecidableEq, Repr

/-- A piece without which a draft is not complete. -/
inductive MissingPiece where
  | target
  | decimal
deriving DecidableEq, Repr

namespace MissingPiece

def name : MissingPiece → String
  | target => "target"
  | decimal => "decimal_counter"

/-- What a user is told. -/
def message (p : MissingPiece) : String := "\x60" ++ p.name ++ "\x60 must be initialized"

end MissingPiece

namespace Draft

/-- A draft with every piece at its default. -/
def fresh : Draft := { target := some "", decimal := some false }

/-- The request of a complete draft. -/
def complete (d : Draft) : Except MissingPiece Request :=
  match d.target, d.decimal with
  | none, _ => .error .target
  | _, none => .error .decimal
  | some target, some decimal => .ok { target, decimal }

end Draft

/-- Why there is no listing: the target has no code. -/
structure Failed where
  cause : TargetError
deriving DecidableEq, Repr

namespace Failed

/-- What a user is told. -/
def message (e : Failed) : String := "Failed to fetch bytecode: " ++ e.cause.message

/-- The failure with its cause. -/
def debug (e : Failed) : String := "FetchError(" ++ e.cause.debug ++ ")"

end Failed

namespace Request

/-- The listing that is asked for. -/
def listing (fs : FileSystem) (r : Request) : Except Failed String :=
  match Target.resolve fs r.target with
  | .ok code => .ok (render r.decimal code)
  | .error cause => .error ⟨cause⟩

/-- What is noted while a request is answered. -/
def notices (fs : FileSystem) (r : Request) : List Log.Record :=
  Target.notices fs r.target ++
    match Target.resolve fs r.target with
    | .ok code => Listing.notices code
    | .error _ => []

end Request

end WordMachine.Listing
