import Pinout.Board.Assembly
import Pinout.Capability.Reading
import Pinout.Proofs.Text.Word

/-! Boards and tables of given texts, as decisions about them are evaluated: from the characters of
the texts, read by their bytes. -/

set_option autoImplicit false

namespace Pinout

open Text (letters letters_eq)

namespace Board

theorem board_parse (policy : Policy) (text : String) : (parse policy text).board =
    assemble policy (((Text.lines (letters text)).zipIdx 1).filterMap fun (line, number) =>
      (readLine line).statement.map fun statement => ⟨number, statement⟩) := by
  rw [letters_eq, parse, declarations, numberedLines, List.filterMap_map]
  rfl

end Board

namespace Capability

theorem table_parse (mcu text : String) : (parse mcu text).table =
    let blocks := (PinMap.blocksFrom 1 (PinMap.strip (letters text))).items
    let sections : List PinMap.Section := blocks.map fun block => ⟨block.name, block.rows.items⟩
    (ofOffers mcu (sections.map (·.name)) (offersOf sections)).table := by
  rw [letters_eq]
  rfl

end Capability

end Pinout
