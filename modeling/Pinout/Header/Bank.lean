import Pinout.Header.Fragment

/-! The sections of a header for timed outputs: one namespace for each family, and in
it one for each bank that drives the family. -/

set_option autoImplicit false

namespace Pinout.Header

open Resolution (Bank Placement Resolved)

def familySpace : Family → String
  | .motor => "Motor"
  | .servo => "Servo"
  | .ledStrip => "LedStrip"

def familyPlural : Family → String
  | .motor => "Motors"
  | .servo => "Servos"
  | .ledStrip => "LED strip"

/-- The variable of an output, without its number. -/
def familyVariable : Family → String
  | .motor => "motor"
  | .servo => "servo"
  | .ledStrip => "led_strip"

def channelType : Item :=
  .block "struct Channel \x7b"
    (["pin", "ch", "min_us", "max_us"].map fun field => .line s!"uint32_t {field};")
    "\x7d;"

def channelItem? (family : Family) (timing : Timing) (placement : Placement) :
    Option Item :=
  placement.entry.map fun entry =>
    let channel := entry.timerChannel?.getD 0
    let values := [placement.variant.name, toString channel, toString timing.minPulse,
      toString timing.maxPulse]
    .line (s!"static constexpr Channel {familyVariable family}{placement.id.index} = " ++
      braced values ++ s!";  // {entry.label}")

def bankItems (family : Family) (timing : Timing) (bank : Bank) : List Item :=
  let channels := bank.channelsOf family
  let indices := channels.map fun placement => toString placement.id.index
  [.line (s!"// {bank.target} Bank: {familyPlural family} " ++ ", ".intercalate indices),
    .block s!"namespace {bank.target}_Bank \x7b"
      ([.line s!"static inline TIM_TypeDef* const timer = {bank.target};", .gap,
        channelType, .gap] ++ channels.filterMap (channelItem? family timing))
      "\x7d;",
    .gap]

/-- The section of a family. Without banks only the dropped outputs are left. -/
def familyItems (board : Resolved) (family : Family) : List Item :=
  let dropped := omissions board (.output family)
  match board.banksFor family with
  | [] => dropped
  | banks =>
    let timing := board.timings.of family
    [.line s!"// {familyPlural family}: {timing.protocol} protocol",
      .block s!"namespace {familySpace family} \x7b"
        ([.line s!"static constexpr uint32_t frequency_hz = {timing.frequency};", .gap] ++
          dropped ++ banks.flatMap (bankItems family timing))
        "\x7d;",
      .gap]

end Pinout.Header
