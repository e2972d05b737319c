import ElfCraft.Elf.Lemmas.PatchBytes
import ElfCraft.Elf.Lemmas.Translate
import ElfCraft.Ps3patch.Lemmas.Chain
import ElfCraft.Ps3patch.Lemmas.Probe
import ElfCraft.Ps3patch.Lemmas.SaveRestore
import ElfCraft.Ps3patch.Lemmas.Window
import ElfCraft.Ps3patch.Main
import ElfCraft.Elf.Lemmas.Bounds
import ElfCraft.Elf.Lemmas.Append
import ElfCraft.Binary.Layout
import ElfCraft.Elf.Lemmas.ByteOrder
import ElfCraft.Elf.Lemmas.Layout
import ElfCraft.Ppc.Lemmas.Encode
import ElfCraft.Ppc.Lemmas.Rotate
import ElfCraft.Ps3patch.Lemmas.Refuse
import ElfCraft.Elf.Lemmas.Congruent
import ElfCraft.Ps3patch.Lemmas.Congruent
import ElfCraft.Ps3patch.Info
import ElfCraft.Ps3patch.Lemmas.Info
import ElfCraft.Ps3patch.Cli
import ElfCraft.Ps3patch.Lemmas.Cli
import ElfCraft.Ps3patch.Lemmas.Report
import ElfCraft.Binary.Image
import ElfCraft.Elf.Lemmas.Image
import ElfCraft.Ps3patch.Lemmas.Loaded
import ElfCraft.Ps3patch.Lemmas.Restore
import ElfCraft.Ps3patch.Lemmas.Start
import ElfCraft.Elf.Lemmas.Reload
import ElfCraft.Exec.Lockstep
import ElfCraft.Ps3patch.Lemmas.Paths
import ElfCraft.Exec.Observed
import ElfCraft.Ps3patch.Lemmas.Calls
import ElfCraft.Binary.Copied
import ElfCraft.Ps3patch.Lemmas.Payload
import ElfCraft.Ps3patch.Lemmas.Seal
import ElfCraft.Exec.Decisive
import ElfCraft.Ps3patch.Lemmas.Retry
import ElfCraft.Elf.Lemmas.Spans
import ElfCraft.Ps3patch.Lemmas.Spans
import ElfCraft.Ps3patch.Lemmas.Displaced
