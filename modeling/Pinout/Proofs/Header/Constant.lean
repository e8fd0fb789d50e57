import Pinout.Proofs.Header.Outline

/-! The declared constants of a header by their type. The sections for buses and inputs declare
in the block around the sections, each constants of its own types; those for outputs declare in
blocks of their own. -/

set_option autoImplicit false

namespace Pinout.Header

open Resolution (Bank Bus Placement Resolved)

variable {board : Resolved} {options : Options} {scope kinds : List String}
  {told back : List Declared}

/-- The declared constants of a type. -/
def constantsOf (told : List Declared) (type : String) : List Declared :=
  told.filter fun declared => declared.kind = "static constexpr " ++ type

theorem constantsOf_append (front back : List Declared) (type : String) :
    constantsOf (front ++ back) type = constantsOf front type ++ constantsOf back type :=
  List.filter_append ..

theorem constantsOf_cons_of_ne {declared : Declared} {type : String}
    (other : declared.kind ≠ "static constexpr " ++ type) (rest : List Declared) :
    constantsOf (declared :: rest) type = constantsOf rest type :=
  List.filter_cons_of_neg (by simpa using other)

theorem constantsOf_eq_nil {type : String}
    (absent : "static constexpr " ++ type ∉ told.map Declared.kind) :
    constantsOf told type = [] := by
  refine List.filter_eq_nil_iff.mpr fun declared member same => absent ?_
  rw [← of_decide_eq_true same]
  exact List.mem_map_of_mem member

/-- All declarations stand in one block and are of the given kinds. -/
def Among (scope kinds : List String) (told : List Declared) : Prop :=
  ∀ declared ∈ told, declared.scope = scope ∧ declared.kind ∈ kinds

namespace Among

theorem nil : Among scope kinds [] :=
  List.forall_mem_nil _

theorem cons {kind name text : String} (listed : kind ∈ kinds) (rest : Among scope kinds told) :
    Among scope kinds (⟨scope, kind, name, text⟩ :: told) :=
  List.forall_mem_cons.mpr ⟨⟨rfl, listed⟩, rest⟩

theorem append (first : Among scope kinds told) (second : Among scope kinds back) :
    Among scope kinds (told ++ back) :=
  List.forall_mem_append.mpr ⟨first, second⟩

theorem constantsOf_eq_nil (among : Among scope kinds told) (type : String)
    (absent : "static constexpr " ++ type ∉ kinds) : constantsOf told type = [] := by
  refine Header.constantsOf_eq_nil fun listed => absent ?_
  obtain ⟨declared, member, same⟩ := List.mem_map.mp listed
  exact same ▸ (among declared member).2

/-- Constants of one type are all or none of those wanted. -/
theorem constantsOf_eq {own : String} (among : Among scope ["static constexpr " ++ own] told)
    (type : String) : constantsOf told type = if type = own then told else [] := by
  split
  · rename_i same
    refine List.filter_eq_self.mpr fun declared member => decide_eq_true ?_
    rw [same]
    exact List.mem_singleton.mp (among declared member).2
  · rename_i other
    refine among.constantsOf_eq_nil type fun listed => other ?_
    exact (String.append_right_inj _).mp (List.mem_singleton.mp listed)

end Among

/-! ## Buses and inputs -/

section Sections

variable (board : Resolved) (options : Options)

theorem among_constantAt {α : Type} (type : String) (name : α → String)
    (values : α → List String) (items : List α) :
    Among scope ["static constexpr " ++ type]
      (items.map fun item => constantAt scope type (name item) (values item)) :=
  List.forall_mem_map.mpr fun _ _ => ⟨rfl, List.mem_singleton_self _⟩

theorem among_storageDeclared :
    Among bodyScope ["static constexpr " ++ "StorageConfig"] (storageDeclared board options) := by
  unfold storageDeclared
  split
  · exact .nil
  · split
    · exact .nil
    · exact .cons (List.mem_singleton_self _) .nil

theorem among_motionDeclared :
    Among bodyScope ["static constexpr SPIConfig", "static constexpr IMUConfig"]
      (motionDeclared board options) := by
  unfold motionDeclared
  split
  · exact .nil
  · split
    · exact .nil
    · exact .cons (by decide) (.cons (by decide) .nil)

theorem among_i2cDeclared :
    Among bodyScope ["static constexpr " ++ "I2CConfig"] (i2cDeclared board options) :=
  among_constantAt _ _ _ _

theorem among_uartDeclared :
    Among bodyScope ["static constexpr " ++ "UARTConfig"] (uartDeclared board options) :=
  among_constantAt _ _ _ _

theorem among_spiDeclared :
    Among bodyScope ["static constexpr " ++ "SPIConfig"] (spiDeclared board options) :=
  among_constantAt _ _ _ _

theorem scope_of_mem_busesDeclared {declared : Declared}
    (member : declared ∈ busesDeclared board options) : declared.scope = bodyScope := by
  simp only [busesDeclared, List.mem_append] at member
  rcases member with (((storage | motion) | i2c) | uart) | spi
  · exact (among_storageDeclared board options declared storage).1
  · exact (among_motionDeclared board options declared motion).1
  · exact (among_i2cDeclared board options declared i2c).1
  · exact (among_uartDeclared board options declared uart).1
  · exact (among_spiDeclared board options declared spi).1

/-- The kinds of inputs, lights and the beeper. -/
def inputKinds : List String :=
  ["static constexpr ADCConfig", "static constexpr uint32_t", "static constexpr LEDConfig",
    "static constexpr bool"]

theorem among_inputsDeclared : Among bodyScope inputKinds (inputsDeclared board) := by
  have battery : Among bodyScope inputKinds (batteryDeclared board) := by
    unfold batteryDeclared
    split
    · exact .nil
    · exact .cons (by decide) .nil
  have strength : Among bodyScope inputKinds (strengthDeclared board) := by
    unfold strengthDeclared
    split
    · exact .nil
    · exact .cons (by decide) .nil
  have light : Among bodyScope inputKinds (lightDeclared board) := by
    unfold lightDeclared
    split
    · exact .nil
    · exact .cons (by decide) .nil
  have beeper : Among bodyScope inputKinds (beeperDeclared board) := by
    unfold beeperDeclared
    split
    · exact .nil
    · refine .cons (by decide) ?_
      dsimp only
      split
      · exact .nil
      · exact .cons (by decide) .nil
  exact ((battery.append strength).append light).append beeper

end Sections

/-! ## Outputs -/

theorem among_channelAt (family : Family) (timing : Timing) (target : Instance)
    (placements : List Placement) :
    Among (bankScope family target) ["static constexpr " ++ "Channel"]
      (placements.filterMap (channelAt family timing target)) := by
  intro declared member
  obtain ⟨placement, _, shown⟩ := List.mem_filterMap.mp member
  obtain ⟨entry, _, rfl⟩ := Option.map_eq_some_iff.mp shown
  exact ⟨rfl, List.mem_singleton_self _⟩

/-- The kinds of what the section of a family declares. -/
def familyKinds : List String :=
  ["namespace", "static constexpr uint32_t", "static inline TIM_TypeDef* const", "struct",
    "static constexpr Channel"]

theorem kinds_bankDeclared (family : Family) (timing : Timing) (bank : Bank) :
    (bankDeclared family timing bank).map Declared.kind ⊆ familyKinds := by
  rw [bankDeclared, List.map_append, List.append_subset]
  constructor
  · show ["namespace", "static inline TIM_TypeDef* const", "struct"] ⊆ familyKinds
    decide
  · intro kind listed
    obtain ⟨declared, member, rfl⟩ := List.mem_map.mp listed
    have channel := (among_channelAt family timing bank.target _ declared member).2
    rw [List.mem_singleton.mp channel]
    decide

theorem kinds_familyDeclared (board : Resolved) (family : Family) :
    (familyDeclared board family).map Declared.kind ⊆ familyKinds := by
  unfold familyDeclared
  split
  · exact List.nil_subset _
  · rw [List.map_cons, List.map_cons, List.map_flatMap]
    refine List.cons_subset.mpr ⟨(by decide : "namespace" ∈ familyKinds),
      List.cons_subset.mpr ⟨(by decide : "static constexpr uint32_t" ∈ familyKinds), ?_⟩⟩
    intro kind listed
    obtain ⟨bank, _, inside⟩ := List.mem_flatMap.mp listed
    exact kinds_bankDeclared family _ bank inside

theorem constantsOf_family_eq_nil {type : String} (family : Family)
    (absent : "static constexpr " ++ type ∉ familyKinds) :
    constantsOf (familyDeclared board family) type = [] :=
  constantsOf_eq_nil fun listed => absent (kinds_familyDeclared board family listed)

/-! ## Whole headers -/

/-- Besides buses, inputs and outputs a header declares the block around them. -/
theorem constantsOf_document (type : String) :
    constantsOf (documentDeclared board options) type =
      constantsOf (busesDeclared board options) type ++ constantsOf (inputsDeclared board) type ++
        constantsOf (outputsDeclared board) type := by
  have space : ("namespace" : String) ≠ "static constexpr " ++ type := by
    intro same
    have first := congrArg (fun text => text.toList.head?) same
    rw [String.toList_append] at first
    cases first
  rw [documentDeclared, constantsOf_cons_of_ne space, constantsOf_append, constantsOf_append]

theorem constantsOf_buses (type : String) :
    constantsOf (busesDeclared board options) type =
      (if type = "StorageConfig" then storageDeclared board options else []) ++
        constantsOf (motionDeclared board options) type ++
        (if type = "I2CConfig" then i2cDeclared board options else []) ++
        (if type = "UARTConfig" then uartDeclared board options else []) ++
        (if type = "SPIConfig" then spiDeclared board options else []) := by
  rw [busesDeclared, constantsOf_append, constantsOf_append, constantsOf_append,
    constantsOf_append, (among_storageDeclared board options).constantsOf_eq,
    (among_i2cDeclared board options).constantsOf_eq,
    (among_uartDeclared board options).constantsOf_eq,
    (among_spiDeclared board options).constantsOf_eq]

/-- The constants of a type that neither inputs nor outputs have are those of buses. -/
theorem constantsOf_document_of_bus {type : String}
    (input : "static constexpr " ++ type ∉ inputKinds)
    (output : "static constexpr " ++ type ∉ familyKinds) :
    constantsOf (documentDeclared board options) type =
      constantsOf (busesDeclared board options) type := by
  rw [constantsOf_document, (among_inputsDeclared board).constantsOf_eq_nil type input,
    outputsDeclared, constantsOf_append, constantsOf_append,
    constantsOf_family_eq_nil .servo output, constantsOf_family_eq_nil .motor output,
    constantsOf_family_eq_nil .ledStrip output, List.append_nil, List.append_nil, List.append_nil,
    List.append_nil]

end Pinout.Header
