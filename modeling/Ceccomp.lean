import Ceccomp.Check.Safety
import Ceccomp.Ebpf.Simulation
import Ceccomp.Disasm.ArchTracking
import Ceccomp.Disasm.Names
import Ceccomp.Text.Program
import Ceccomp.Text.Asm
import Ceccomp.Text.Source
import Ceccomp.Capture.Global
import Ceccomp.Capture.Pid
import Ceccomp.Disasm.Bounds
import Ceccomp.Disasm.Formatter
import Ceccomp.Emu.Agreement
import Ceccomp.Text.Lines
import Ceccomp.Emu.Endian
import Ceccomp.Text.Operands
import Ceccomp.Ebpf.Allocated
import Ceccomp.Lib.Run
import Ceccomp.Text.CMacro
import Ceccomp.Text.Words
import Ceccomp.Text.Inside
import Ceccomp.Text.Labels
import Ceccomp.Text.Ending
import Ceccomp.Text.Local
import Ceccomp.Text.Recovery
import Ceccomp.Text.Silence
import Ceccomp.Text.Segments
import Ceccomp.Text.Diagnostics
import Ceccomp.Text.Readback
import Ceccomp.Text.Numerals
import Ceccomp.Text.Printed
import Ceccomp.Text.Reparsed
import Ceccomp.Text.Dotted
import Ceccomp.Text.Reassembled
import Ceccomp.Emu.Disassembled
import Ceccomp.Emu.Echo
import Ceccomp.Lib.Spread
import Ceccomp.Ebpf.Blinding
import Ceccomp.Ebpf.BlindPass
import Ceccomp.Ebpf.Hardened
import Ceccomp.Ebpf.Relocation
import Ceccomp.Lib.Stream
import Ceccomp.Files.Disasm
import Ceccomp.Files.Assemble
import Ceccomp.Files.RoundTrip
