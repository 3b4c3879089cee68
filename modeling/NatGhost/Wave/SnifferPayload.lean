import NatGhost.Wave.Sniffer

/-!
# Which payloads the sniffer accepts

`burst_worker` puts `PORT` and exactly five digits in front of a payload. `sniff_listener` compares
the four letters and leaves the five bytes behind them to `atoi`, which takes a shorter number too:
it skips white space, takes a plus sign, stops at the first other byte, and is content with no digit
at all. So `PORT12abc` is logged as port 12, and `PORThello` as port 0.

Five digits are a text of the burst if their value is a port and are ignored otherwise. What else is
ignored is what `atoi` finds to be negative.
-/

namespace NatGhost

section

variable {payload : List UInt8} {port : UInt16}

end

/-! ## The report -/

section

variable {s : Sniffer} {payload : List UInt8} {a : ℕ}

end

end NatGhost
