import Pinout.Proofs.Library.Shelf

/-! Names that a library is asked by. A name that is accepted has one canonical form, and a
library and a shelf do with the name, in whatever spelling, just what they do with that form. -/

set_option autoImplicit false

namespace Pinout.Library

variable {name mcu : String}

/-! ## What is done with a name -/

theorem register_canonical (library : Library) (paths : List File.Path)
    (found : Mcu.normalize? name = some mcu) :
    library.register name paths = library.register mcu paths := by
  rw [register, register, found, Mcu.normalize?_of_normalize? found]

theorem candidates_canonical (library : Library) (found : Mcu.normalize? name = some mcu) :
    library.candidates name = library.candidates mcu := by
  rw [candidates, candidates, found, Mcu.normalize?_of_normalize? found]

theorem Shelf.get_canonical (shelf : Shelf) (tree : File.Tree)
    (found : Mcu.normalize? name = some mcu) : shelf.get tree name = shelf.get tree mcu := by
  rw [get, get, found, Mcu.normalize?_of_normalize? found]

/-- A canonical form stands for all spellings of a name. -/
structure StandsFor (mcu name : String) : Prop where
  filled : mcu ≠ ""
  canonical : ∀ char ∈ mcu.toList, char.isUpper = true ∨ char.isDigit = true ∨ char = '_'
  stable : Mcu.normalize? mcu = some mcu
  respelled : ∀ {other}, Text.Respelled name other → Mcu.normalize? other = some mcu
  supported : ∀ entry ∈ Mcu.builtin, entry.1.toList <+: mcu.toList → mcu = entry.1
  registered : ∀ (library : Library) (paths : List File.Path),
    library.register name paths = library.register mcu paths
  listed : ∀ library : Library, library.candidates name = library.candidates mcu
  loaded : ∀ (library : Library) (tree : File.Tree),
    library.load tree name = library.load tree mcu
  shelved : ∀ (shelf : Shelf) (tree : File.Tree), shelf.get tree name = shelf.get tree mcu

theorem standsFor_canonical (found : Mcu.normalize? name = some mcu) :
    StandsFor mcu name where
  filled := by
    rintro rfl
    exact Mcu.filled_of_normalize? found rfl
  canonical := fun _ => Mcu.isCanonicalChar_of_normalize? found
  stable := Mcu.normalize?_of_normalize? found
  respelled := fun respelled => (Mcu.normalize?_respelled respelled).trans found
  supported := fun _ => Mcu.eq_of_builtin_prefix found
  registered := fun library paths => register_canonical library paths found
  listed := fun library => candidates_canonical library found
  loaded := fun _ _ => (load_canonical found).symm
  shelved := fun shelf tree => shelf.get_canonical tree found

/-- A short name of a part is brought to the supported name without its details. -/
theorem standsFor_part : Mcu.normalize? " f411ceU6\t" = some "STM32F411" ∧
    StandsFor "STM32F411" " f411ceU6\t" := by
  have found : Mcu.normalize? " f411ceU6\t" = some "STM32F411" := by decide +kernel
  exact ⟨found, standsFor_canonical found⟩

end Pinout.Library
