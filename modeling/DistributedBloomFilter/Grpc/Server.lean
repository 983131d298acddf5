import DistributedBloomFilter.Basic

/-!
# The handlers of the server

`Add`, `Remove` and `BatchAdd` of `DBFServer` in `internal/grpc/server.go`.  The node behind them is a function that
answers with an error or nil and changes a state `σ` of its own.
-/

namespace DistributedBloomFilter

/-- `AddResponse` and `RemoveResponse`. -/
structure MutateResponse where
  success : Bool
  error : String
deriving DecidableEq, Repr

structure BatchAddResponse where
  successCount : Int32
  failureCount : Int32
  errors : List String
deriving DecidableEq

namespace DBFServer

variable {σ : Type}

/-- `Add` and `Remove`, which differ in the call of the node and in the word of the error. -/
def mutate (verb : String) (node : Bytes → σ → Option String × σ) (item : Bytes) (s : σ) : MutateResponse × σ :=
  if item = [] then (⟨false, "item cannot be empty"⟩, s)
  else
    match node item s with
    | (some err, s') => (⟨false, "failed to " ++ verb ++ " item: " ++ err⟩, s')
    | (none, s') => (⟨true, ""⟩, s')

def add (nodeAdd : Bytes → σ → Option String × σ) (item : Bytes) (s : σ) : MutateResponse × σ :=
  mutate "add" nodeAdd item s

def remove (nodeRemove : Bytes → σ → Option String × σ) (item : Bytes) (s : σ) : MutateResponse × σ :=
  mutate "remove" nodeRemove item s

/-- The variables of the loop of `BatchAdd`. -/
structure BatchState (σ : Type) where
  successCount : Nat
  failureCount : Nat
  errors : List String
  node : σ

/-- The body of the loop over the items.  The position of an item is handed to the node for the record only. -/
def batchAddItem (nodeAdd : Nat → Bytes → σ → Option String × σ) (b : BatchState σ) (item : Bytes) : BatchState σ :=
  if item = [] then { b with failureCount := b.failureCount + 1, errors := b.errors ++ ["item cannot be empty"] }
  else
    match nodeAdd b.errors.length item b.node with
    | (some err, s) =>
      { b with failureCount := b.failureCount + 1, errors := b.errors ++ ["failed to add item: " ++ err], node := s }
    | (none, s) => { b with successCount := b.successCount + 1, errors := b.errors ++ [""], node := s }

def batchAdd (nodeAdd : Nat → Bytes → σ → Option String × σ) (items : List Bytes) (s : σ) : BatchAddResponse × σ :=
  if items.length = 0 then (⟨0, 0, ["no items provided"]⟩, s)
  else
    let b := items.foldl (batchAddItem nodeAdd) { successCount := 0, failureCount := 0, errors := [], node := s }
    (⟨Int32.ofNat b.successCount, Int32.ofNat b.failureCount, b.errors⟩, b.node)

end DBFServer

end DistributedBloomFilter
