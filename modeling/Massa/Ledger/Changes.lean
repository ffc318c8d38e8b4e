import Massa.Ledger.Types
import Massa.Lib.SortedMap
import Massa.Models.Basic

/-!
# Ledger entries and ledger changes (`ledger_entry.rs`, `ledger_changes.rs`)

A `LedgerEntry` holds a balance, a bytecode and a datastore; a
`LedgerEntryUpdate` patches some of its fields; `LedgerChanges` maps each
touched address to a `SetUpdateOrDelete` of its entry.  The maps of the
source (`BTreeMap`, and `PreHashMap` iterated in address order) are
`SortedMap`s; the loops that merge them are `SortedMap.mergeWith` and
`SortedMap.extend`, whose reading lemmas turn every law below into a
key-by-key statement.

The abstract ledger `AbstractLedger` is a finite map from addresses to
entries, changed by `AbstractLedger.applyChanges` with the semantics of the
`SetUpdateOrDelete` documentation (an update of an absent address first
creates `LedgerEntry::default()`).  Main result:

* `AbstractLedger.applyChanges_apply` — composing change sets with
  `LedgerChanges::apply` is a homomorphism: applying `c1` then `c2` is
  applying `c1.apply(c2)`.

It is assembled from the action laws of each layer
(`LedgerEntry.apply_actsBy`, `ledgerChanges_actsBy`), which the generic
lifting rules of `Massa.Lib.Action` carry from fields to whole ledgers.
-/

namespace Massa

open Action

/-- `Datastore = BTreeMap<Vec<u8>, Vec<u8>>`. -/
abbrev Datastore := SortedMap Bytes Bytes

/-- The datastore part of a `LedgerEntryUpdate`:
`BTreeMap<Vec<u8>, SetOrDelete<Vec<u8>>>`. -/
abbrev DatastoreUpdate := SortedMap Bytes (SetOrDelete Bytes)

/-- `LedgerEntry`. -/
@[ext]
structure LedgerEntry where
  balance : Amount
  bytecode : Bytecode
  datastore : Datastore

/-- `#[derive(Default)]`: zero balance, empty bytecode, empty datastore. -/
instance : Inhabited LedgerEntry := ⟨⟨default, default, ∅⟩⟩

/-- `LedgerEntryUpdate`. -/
@[ext]
structure LedgerEntryUpdate where
  balance : SetOrKeep Amount
  bytecode : SetOrKeep Bytecode
  datastore : DatastoreUpdate

/-- `#[derive(Default)]`: keep every field, touch no datastore key. -/
instance : Inhabited LedgerEntryUpdate := ⟨⟨.keep, .keep, ∅⟩⟩

namespace LedgerEntryUpdate

/-- `Applicable<LedgerEntryUpdate> for LedgerEntryUpdate`: extend `self` with a
later update. -/
def apply (self update : LedgerEntryUpdate) : LedgerEntryUpdate where
  balance := self.balance.apply update.balance
  bytecode := self.bytecode.apply update.bytecode
  -- `BTreeMap::extend`: an incoming key replaces the one already there
  datastore := self.datastore.extend update.datastore

instance : Applicable LedgerEntryUpdate LedgerEntryUpdate := ⟨apply⟩

theorem datastore_apply (self update : LedgerEntryUpdate) :
    (self.apply update).datastore.get? =
      pointwiseComp (optComp SetOrDelete.apply) self.datastore.get? update.datastore.get? := by
  funext key
  rw [apply, SortedMap.get?_extend, pointwiseComp_apply]
  rfl

end LedgerEntryUpdate

namespace LedgerEntry

/-- `Applicable<LedgerEntryUpdate> for LedgerEntry`. -/
def apply (self : LedgerEntry) (update : LedgerEntryUpdate) : LedgerEntry where
  balance := update.balance.applyTo self.balance
  bytecode := update.bytecode.applyTo self.bytecode
  -- the loop over `update.datastore`: `Set` inserts, `Delete` removes
  datastore := update.datastore.entries.foldl (fun datastore e =>
    match e.2 with
    | .set v => datastore.insert e.1 v
    | .delete => datastore.erase e.1) self.datastore

instance : Applicable LedgerEntry LedgerEntryUpdate := ⟨apply⟩

/-- The datastore loop writes each key of the update in turn. -/
theorem datastore_apply_eq_writeAll (self : LedgerEntry) (update : LedgerEntryUpdate) :
    (self.apply update).datastore = self.datastore.writeAll
      (update.datastore.entries.map fun e => (e.1, SetOrDelete.applyToOpt none e.2)) := by
  rw [apply, SortedMap.writeAll, List.foldl_map]
  apply List.foldl_ext
  rintro datastore ⟨k, _ | _⟩ - <;> rfl

theorem datastore_apply (self : LedgerEntry) (update : LedgerEntryUpdate) :
    (self.apply update).datastore.get? =
      pointwise (optAct SetOrDelete.applyToOpt) self.datastore.get? update.datastore.get? := by
  funext key
  rw [datastore_apply_eq_writeAll, SortedMap.get?_writeAll_map, pointwise_apply]
  rcases update.datastore.get? key with _ | _ | _ <;> rfl

/-- Applying a merged entry update is applying its parts in turn: field by
field, and datastore key by datastore key. -/
theorem apply_actsBy : ActsBy LedgerEntry.apply LedgerEntryUpdate.apply := by
  intro e u v
  have hds : ActsBy (pointwise (κ := Bytes) (optAct (SetOrDelete.applyToOpt (T := Bytes))))
      (pointwiseComp (optComp (SetOrDelete.apply (T := Bytes)))) :=
    actsBy_pointwise (actsBy_opt SetOrDelete.setOrDelete_actsBy)
  ext1
  · exact SetOrKeep.setOrKeep_actsBy e.balance u.balance v.balance
  · exact SetOrKeep.setOrKeep_actsBy e.bytecode u.bytecode v.bytecode
  · apply SortedMap.ext
    intro key
    rw [datastore_apply, datastore_apply, datastore_apply, LedgerEntryUpdate.datastore_apply]
    exact congrFun (hds e.datastore.get? u.datastore.get? v.datastore.get?) key

end LedgerEntry

/-- `LedgerChanges(PreHashMap<Address, SetUpdateOrDelete<LedgerEntry, LedgerEntryUpdate>>)`. -/
abbrev LedgerChanges := SortedMap Address (SetUpdateOrDelete LedgerEntry LedgerEntryUpdate)

namespace LedgerChanges

/-- `Applicable<LedgerChanges>::apply`: extend the changes with later ones,
applying an incoming change to the change already there (`Entry::Occupied`)
or inserting it (`Entry::Vacant`). -/
def apply (self changes : LedgerChanges) : LedgerChanges :=
  self.mergeWith SetUpdateOrDelete.apply changes

theorem apply_eq_pointwiseComp (self changes : LedgerChanges) :
    (self.apply changes).get? = pointwiseComp (optComp SetUpdateOrDelete.apply) self.get? changes.get? := by
  funext addr
  rw [apply, SortedMap.get?_mergeWith, pointwiseComp_apply]

/-- `LedgerChanges::set_balance`: the balance of a replacement entry is set, an
update sets the balance, a deletion becomes a default entry with the balance,
and an untouched address gets an update of its balance. -/
def setBalance (self : LedgerChanges) (addr : Address) (balance : Amount) : LedgerChanges :=
  match self.get? addr with
  | some (.set v) => self.insert addr (.set { v with balance })
  | some (.update u) => self.insert addr (.update { u with balance := .set balance })
  | some .delete => self.insert addr (.set { (default : LedgerEntry) with balance })
  | none => self.insert addr (.update { (default : LedgerEntryUpdate) with balance := .set balance })

/-- `LedgerChanges::create_address`: a replacement by the default entry. -/
def createAddress (self : LedgerChanges) (address : Address) : LedgerChanges :=
  self.insert address (.set default)

/-- `LedgerChanges::get_balance_or_else`.  The fallback `f` is a closure in
the source, called only in the branches that return it; here it is the value
it returns. -/
def getBalanceOrElse (self : LedgerChanges) (addr : Address) (f : Option Amount) :
    Option Amount :=
  match self.get? addr with
  | some (.set v) => some v.balance
  | some (.update ⟨.set v, _, _⟩) => some v
  | some (.update ⟨.keep, _, _⟩) => f
  | some .delete => none
  | none => f

/-- After the added changes are extended by a change set that only sets the
balance of `addr`, the balance of `addr` is that balance, whatever the added
changes held for it. -/
theorem getBalanceOrElse_apply_setBalance (self : LedgerChanges) (addr : Address)
    (balance : Amount) (f : Option Amount) :
    (self.apply ((∅ : LedgerChanges).setBalance addr balance)).getBalanceOrElse addr f =
      some balance := by
  have hset : ((∅ : LedgerChanges).setBalance addr balance).get? addr =
      some (.update { (default : LedgerEntryUpdate) with balance := .set balance }) := by
    rw [setBalance, SortedMap.get?_empty, SortedMap.get?_insert, if_pos rfl]
  unfold getBalanceOrElse
  rw [apply_eq_pointwiseComp, pointwiseComp_apply, hset]
  -- one case per change the added changes held for `addr`
  cases hself : self.get? addr with
  | none => rfl
  | some c => cases c <;> rfl

/-- `LedgerChanges::get_bytecode_or_else`. -/
def getBytecodeOrElse (self : LedgerChanges) (addr : Address) (f : Option Bytecode) :
    Option Bytecode :=
  match self.get? addr with
  | some (.set v) => some v.bytecode
  | some (.update ⟨_, .set v, _⟩) => some v
  | some (.update ⟨_, .keep, _⟩) => f
  | some .delete => none
  | none => f

/-- `LedgerChanges::entry_exists_or_else`: an updated entry is assumed to exist,
"because it will be created on update if it doesn't". -/
def entryExistsOrElse (self : LedgerChanges) (addr : Address) (f : Bool) : Bool :=
  match self.get? addr with
  | some (.set _) => true
  | some (.update _) => true
  | some .delete => false
  | none => f

/-- `LedgerChanges::get_data_entry_or_else`. -/
def getDataEntryOrElse (self : LedgerChanges) (addr : Address) (key : Bytes)
    (f : Option Bytes) : Option Bytes :=
  match self.get? addr with
  | some (.set v) => v.datastore.get? key
  | some (.update u) =>
    match u.datastore.get? key with
    | some (.set v) => some v
    | some .delete => none
    | none => f
  | some .delete => none
  | none => f

/-- `LedgerChanges::has_data_entry_or_else`. -/
def hasDataEntryOrElse (self : LedgerChanges) (addr : Address) (key : Bytes) (f : Bool) :
    Bool :=
  match self.get? addr with
  | some (.set v) => (v.datastore.get? key).isSome
  | some (.update u) =>
    match u.datastore.get? key with
    | some (.set _) => true
    | some .delete => false
    | none => f
  | some .delete => false
  | none => f

/-- `LedgerChanges::has_writes`: whether the changes write to `addr` and, when a
key is given, to that datastore key. -/
def hasWrites (self : LedgerChanges) (addr : Address) (key : Option Bytes) : Bool :=
  match self.get? addr with
  | some (.set v) => key.elim true fun k => (v.datastore.get? k).isSome
  | some (.update u) => key.elim true fun k => (u.datastore.get? k).isSome
  | some .delete => true
  | none => false

end LedgerChanges

/-- The abstract ledger: a finite map from addresses to ledger entries. -/
abbrev AbstractLedger := Address → Option LedgerEntry

namespace AbstractLedger

/-- Applying a change set, address by address, with the semantics of
`SetUpdateOrDelete`: an update of an absent address patches
`LedgerEntry::default()`. -/
def applyChanges (L : AbstractLedger) (changes : LedgerChanges) : AbstractLedger :=
  fun addr => (changes.get? addr).elim (L addr) (SetUpdateOrDelete.applyToOpt (L addr))

/-- The balance of an entry, `None` for an absent address. -/
def getBalance (L : AbstractLedger) (addr : Address) : Option Amount :=
  (L addr).map (·.balance)

/-- The bytecode of an entry. -/
def getBytecode (L : AbstractLedger) (addr : Address) : Option Bytecode :=
  (L addr).map (·.bytecode)

/-- Whether an entry exists. -/
def entryExists (L : AbstractLedger) (addr : Address) : Bool :=
  (L addr).isSome

/-- A datastore value of an entry. -/
def getDataEntry (L : AbstractLedger) (addr : Address) (key : Bytes) : Option Bytes :=
  (L addr).bind (·.datastore.get? key)

/-- Whether a datastore key of an entry is set. -/
def hasDataEntry (L : AbstractLedger) (addr : Address) (key : Bytes) : Bool :=
  (L.getDataEntry addr key).isSome

theorem applyChanges_eq_pointwise (L : AbstractLedger) (changes : LedgerChanges) :
    L.applyChanges changes = pointwise (optAct SetUpdateOrDelete.applyToOpt) L changes.get? := by
  funext addr
  simp only [applyChanges, pointwise_apply]
  cases changes.get? addr <;> rfl

/-- Ledger changes act on abstract ledgers, with `LedgerChanges::apply` as the
merge: the action law of a single change, lifted to optional changes and then
to all addresses. -/
theorem ledgerChanges_actsBy :
    ActsBy (pointwise (κ := Address) (optAct SetUpdateOrDelete.applyToOpt))
      (pointwiseComp (optComp (SetUpdateOrDelete.apply (T := LedgerEntry)
        (V := LedgerEntryUpdate)))) :=
  actsBy_pointwise (actsBy_opt (SetUpdateOrDelete.setUpdateOrDelete_actsBy
    LedgerEntry.apply_actsBy))

/-- **Change composition is a homomorphism for the ledger.**  Applying `c1`
and then `c2` to any abstract ledger is applying the single change set
`c1.apply(c2)`. -/
theorem applyChanges_apply (L : AbstractLedger) (c1 c2 : LedgerChanges) :
    (L.applyChanges c1).applyChanges c2 = L.applyChanges (c1.apply c2) := by
  rw [applyChanges_eq_pointwise, applyChanges_eq_pointwise, applyChanges_eq_pointwise,
    LedgerChanges.apply_eq_pointwiseComp]
  exact ledgerChanges_actsBy L c1.get? c2.get?

end AbstractLedger

end Massa
