import Keriox.Event

/-!
# TEL storage: the escrow database file and the TEL errors

`EscrowDatabase::new` opens the TEL escrow database at a path: when the file does not exist and
the path has a parent directory that does not exist either, it creates the directories first;
then `redb` creates the database at the path, or opens the one there. Every failure, of a
file-system call or of `redb`, is returned as an `EscrowDatabaseError` holding the failing
error's message. The file-system and `redb` calls are not under src/: they are the fields of
`FsCore`, over a file system in a state `Fs`.

The messages of the TEL errors are those of their `#[error(...)]` attributes. Two variants print
the same message: `MissingIssuerEventError` and `MissingRegistryError` both print
`Missing issuer event`; every other variant without a field prints a message of its own.

The traits `TelEventDatabase` and `TelLogDatabase` declare methods only, and no implementation of
them is under src/.

## Main definitions

* `Tel.Error`, `Tel.Error.to_string`: the TEL errors and their messages
* `Tel.FsCore`: the calls `EscrowDatabase::new` makes
* `Tel.EscrowDatabase.new`

## Main results

* `Tel.EscrowDatabase.new_ok`: `new` creates the directories only for a missing file whose parent
  is missing, and returns the database `redb` creates at the path
* `Tel.EscrowDatabase.new_error`: `new` fails only with an `EscrowDatabaseError`
* `Tel.Error.to_string_fieldless`: the messages tell apart the variants without a field, except
  the two that print `Missing issuer event`
-/

namespace Keriox

namespace Tel

/-- `teliox::error::Error`. -/
inductive Error where
  | KeriError (error : Keriox.Error)
  | RedbError
  | Generic (msg : String)
  | EncodingError (msg : String)
  | EscrowDatabaseError (msg : String)
  | MissingSealError
  | MissingIssuerEventError
  | MissingRegistryError
  | OutOfOrderError
  | DigestsNotMatchError
  | UnknownIdentifierError
  | EventAlreadySavedError
  | RwLockingError
  deriving DecidableEq, Repr

/-- The message `Display` prints, from each variant's `#[error(...)]`: `transparent` forwards to
the `keri_core` error's own message, `keri_message`, which is not under src/, and `{0}` prints
the field. `EncodingError` drops its field. -/
def Error.to_string (keri_message : Keriox.Error → String) : Error → String
  | .KeriError error => keri_message error
  | .RedbError => "Redb database error"
  | .Generic msg => msg
  | .EncodingError _ => "Tel event encoding error"
  | .EscrowDatabaseError msg => "Escrow database error: " ++ msg
  | .MissingSealError => "Error"
  | .MissingIssuerEventError => "Missing issuer event"
  | .MissingRegistryError => "Missing issuer event"
  | .OutOfOrderError => "Event is out of order"
  | .DigestsNotMatchError => "Digests doesn\x27t match"
  | .UnknownIdentifierError => "Unknown identifier"
  | .EventAlreadySavedError => "Event is already accepted in TEL"
  | .RwLockingError => "Locking error"

/-- The variants without a field. -/
def Error.fieldless : List Error :=
  [.RedbError, .MissingSealError, .MissingIssuerEventError, .MissingRegistryError,
    .OutOfOrderError, .DigestsNotMatchError, .UnknownIdentifierError, .EventAlreadySavedError,
    .RwLockingError]

/-- The variants without a field print a message of their own, which does not read
`keri_message`. -/
theorem Error.to_string_of_mem_fieldless (keri_message : Keriox.Error → String) :
    ∀ e ∈ fieldless, e.to_string keri_message = e.to_string fun _ => "" := by
  intro e he
  cases e <;> first | rfl | simp [fieldless] at he

/-- **Two errors print the same message.** Among the variants without a field, two print the
same message exactly when they are the same variant, or are `MissingIssuerEventError` and
`MissingRegistryError`, which both print `Missing issuer event`. -/
theorem Error.to_string_fieldless (keri_message : Keriox.Error → String) :
    ∀ e₁ ∈ fieldless, ∀ e₂ ∈ fieldless,
      (e₁.to_string keri_message = e₂.to_string keri_message ↔
        e₁ = e₂ ∨ e₁ = .MissingIssuerEventError ∧ e₂ = .MissingRegistryError ∨
          e₁ = .MissingRegistryError ∧ e₂ = .MissingIssuerEventError) := by
  intro e₁ h₁ e₂ h₂
  rw [to_string_of_mem_fieldless keri_message e₁ h₁, to_string_of_mem_fieldless keri_message e₂ h₂]
  revert e₁ e₂
  decide

/-- What `EscrowDatabase::new` calls and src/ does not hold, over a file system in the state
`Fs`: each call returns the message (`to_string`) of its error when it fails. -/
structure FsCore (Path Fs Db : Type) where
  /-- `std::fs::exists`. -/
  exists_at : Fs → Path → Except String Bool
  /-- `Path::parent`. -/
  parent : Path → Option Path
  /-- `std::fs::create_dir_all`. -/
  create_dir_all : Fs → Path → Except String Fs
  /-- `redb::Database::create`. -/
  create : Fs → Path → Except String (Db × Fs)

/-- `EscrowDatabase`: the `redb` database behind an `Arc`. -/
structure EscrowDatabase (Db : Type) where
  db : Db

/-- `.map_err(|e| Error::EscrowDatabaseError(e.to_string()))`. -/
def escrowDatabaseError {α : Type} (r : Except String α) : Except Error α :=
  r.mapError .EscrowDatabaseError

theorem escrowDatabaseError_eq_ok {α : Type} {r : Except String α} {a : α} :
    escrowDatabaseError r = .ok a ↔ r = .ok a := by
  cases r <;> simp [escrowDatabaseError, Except.mapError]

/-- A computation that fails only with an `EscrowDatabaseError`. -/
def FailsWithEscrowError {α : Type} (r : Except Error α) : Prop :=
  ∀ e, r = .error e → ∃ msg, e = .EscrowDatabaseError msg

section FailsWithEscrowError

variable {α β : Type}

theorem failsWithEscrowError_escrowDatabaseError (r : Except String α) :
    FailsWithEscrowError (escrowDatabaseError r) := by
  intro e h
  cases r with
  | error msg => exact ⟨msg, (Except.error.inj h).symm⟩
  | ok a => cases h

theorem failsWithEscrowError_pure (a : α) : FailsWithEscrowError (pure a : Except Error α) :=
  fun _ h => nomatch h

theorem FailsWithEscrowError.bind {x : Except Error α} {f : α → Except Error β}
    (hx : FailsWithEscrowError x) (hf : ∀ a, FailsWithEscrowError (f a)) :
    FailsWithEscrowError (x >>= f) := by
  intro e h
  cases x with
  | error e' => cases h; exact hx _ rfl
  | ok a => exact hf a e h

end FailsWithEscrowError

theorem bind_eq_ok {ε α β : Type} {x : Except ε α} {f : α → Except ε β} {b : β} :
    x >>= f = .ok b ↔ ∃ a, x = .ok a ∧ f a = .ok b := by
  cases x <;> simp [bind, Except.bind]

namespace EscrowDatabase

variable {Path Fs Db : Type} (F : FsCore Path Fs Db)

/-- The first part of `EscrowDatabase::new`: when the file does not exist and has a parent that
does not exist, the parent's directories are created. -/
def create_parent (fs : Fs) (file_path : Path) : Except Error Fs := do
  if ← escrowDatabaseError (F.exists_at fs file_path) then pure fs
  else match F.parent file_path with
    | none => pure fs
    | some parent =>
      if ← escrowDatabaseError (F.exists_at fs parent) then pure fs
      else escrowDatabaseError (F.create_dir_all fs parent)

/-- `EscrowDatabase::new`. -/
def new (fs : Fs) (file_path : Path) : Except Error (EscrowDatabase Db × Fs) := do
  let fs ← create_parent F fs file_path
  let (db, fs) ← escrowDatabaseError (F.create fs file_path)
  pure (⟨db⟩, fs)

variable {F} {fs fs' : Fs} {file_path : Path}

/-- What `create_parent` leaves: the file system as it was, or after `create_dir_all` of the
path's parent when neither the file nor its parent exists. -/
theorem create_parent_eq_ok (h : create_parent F fs file_path = .ok fs') :
    fs' = fs ∨ ∃ parent, F.exists_at fs file_path = .ok false ∧ F.parent file_path = some parent ∧
      F.exists_at fs parent = .ok false ∧ F.create_dir_all fs parent = .ok fs' := by
  obtain ⟨ex, hex, h⟩ := bind_eq_ok.1 h
  rw [escrowDatabaseError_eq_ok] at hex
  cases ex
  case true => exact .inl (Except.ok.inj h).symm
  case false =>
    simp only [Bool.false_eq_true, if_false] at h
    cases hp : F.parent file_path with
    | none => rw [hp] at h; exact .inl (Except.ok.inj h).symm
    | some parent =>
      rw [hp] at h
      obtain ⟨pex, hpex, h⟩ := bind_eq_ok.1 h
      rw [escrowDatabaseError_eq_ok] at hpex
      cases pex
      case true => exact .inl (Except.ok.inj h).symm
      case false => exact .inr ⟨parent, hex, rfl, hpex, escrowDatabaseError_eq_ok.1 h⟩

/-- **What `EscrowDatabase::new` returns.** When it succeeds, it returns the database `redb`
creates at the path, on the file system as it was, or after `create_dir_all` of the path's parent
when neither the file nor its parent exists: it creates no directory otherwise. -/
theorem new_ok {d : EscrowDatabase Db} (h : new F fs file_path = .ok (d, fs')) :
    ∃ fs₀, F.create fs₀ file_path = .ok (d.db, fs') ∧
      (fs₀ = fs ∨ ∃ parent, F.exists_at fs file_path = .ok false ∧
        F.parent file_path = some parent ∧ F.exists_at fs parent = .ok false ∧
        F.create_dir_all fs parent = .ok fs₀) := by
  obtain ⟨fs₀, h₀, h⟩ := bind_eq_ok.1 h
  obtain ⟨⟨db, fs₁⟩, h₁, h⟩ := bind_eq_ok.1 h
  cases h
  exact ⟨fs₀, escrowDatabaseError_eq_ok.1 h₁, create_parent_eq_ok h₀⟩

/-- **`EscrowDatabase::new` fails only with an `EscrowDatabaseError`**: each of its calls maps its
error to one, holding the error's message. -/
theorem new_error : FailsWithEscrowError (new F fs file_path) := by
  refine FailsWithEscrowError.bind ?_ fun fs =>
    (failsWithEscrowError_escrowDatabaseError _).bind fun _ => failsWithEscrowError_pure _
  unfold create_parent
  refine (failsWithEscrowError_escrowDatabaseError _).bind fun ex => ?_
  split
  · exact failsWithEscrowError_pure _
  · split
    · exact failsWithEscrowError_pure _
    · refine (failsWithEscrowError_escrowDatabaseError _).bind fun pex => ?_
      split
      · exact failsWithEscrowError_pure _
      · exact failsWithEscrowError_escrowDatabaseError _

end EscrowDatabase

end Tel

end Keriox
