/-! Identities of the entities of a program. -/
namespace MixedProgram

/-- What a program registers under an identity of its own. -/
inductive Entity
  | var
  | con
  deriving DecidableEq, Repr

/-- An identity is the position in the order of creation, as a 32-bit word. -/
structure EntityId (e : Entity) where
  val : UInt32
  deriving DecidableEq, Repr, Inhabited

abbrev VarId := EntityId .var
abbrev ConId := EntityId .con

namespace EntityId
variable {e : Entity}

def index (i : EntityId e) : Nat := i.val.toNat

/-- The identity of the entity at a position. -/
def ofIndex (n : Nat) : EntityId e := ⟨UInt32.ofNat n⟩

instance : Ord (EntityId e) := ⟨compareOn EntityId.val⟩
instance : LE (EntityId e) := ⟨fun a b => a.val ≤ b.val⟩
instance : LT (EntityId e) := ⟨fun a b => a.val < b.val⟩
instance (a b : EntityId e) : Decidable (a ≤ b) := inferInstanceAs (Decidable (a.val ≤ b.val))
instance (a b : EntityId e) : Decidable (a < b) := inferInstanceAs (Decidable (a.val < b.val))

instance : Std.TransOrd (EntityId e) := inferInstanceAs (Std.TransCmp (compareOn EntityId.val))

instance : Std.LawfulEqOrd (EntityId e) where
  eq_of_compare {a b} h := by
    cases a
    cases b
    exact congrArg _ (Std.LawfulEqOrd.eq_of_compare h)

theorem index_ofIndex {n : Nat} (h : n < UInt32.size) : (ofIndex n : EntityId e).index = n :=
  UInt32.toNat_ofNat_of_lt' h

theorem index_ofIndex_le (n : Nat) : (ofIndex n : EntityId e).index ≤ n := by
  simp [index, ofIndex, Nat.mod_le]

theorem index_inj {a b : EntityId e} : a.index = b.index ↔ a = b := by
  cases a
  cases b
  simp [index, UInt32.toNat_inj]

theorem ofIndex_index (a : EntityId e) : ofIndex a.index = a := by
  cases a
  simp [ofIndex, index]

end EntityId
end MixedProgram
