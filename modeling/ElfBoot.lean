import ElfBoot.Firmware.Session
import ElfBoot.Handoff.Entry
import ElfBoot.Host.Session
import ElfBoot.Load.OnePass
import ElfBoot.Settings.Writer
import ElfBoot.Proofs.Firmware.Agreement
import ElfBoot.Proofs.Handoff.Accounting
import ElfBoot.Proofs.Handoff.Handover
import ElfBoot.Proofs.Host.Diagnosis
import ElfBoot.Proofs.Host.HeaderTable
import ElfBoot.Proofs.Host.Hull
import ElfBoot.Proofs.Host.PartialReads
import ElfBoot.Proofs.Host.Permutation
import ElfBoot.Proofs.Host.Relevance
import ElfBoot.Proofs.Host.TouchedPages
import ElfBoot.Proofs.Host.Translation
import ElfBoot.Proofs.Host.Widths
import ElfBoot.Proofs.Image.Codec
import ElfBoot.Proofs.Load.Faultless
import ElfBoot.Proofs.Load.LastPage
import ElfBoot.Proofs.Load.Planning
import ElfBoot.Proofs.Load.TwoPhases
import ElfBoot.Proofs.Handoff.CommandLine
import ElfBoot.Proofs.Settings.Tokens
import ElfBoot.Proofs.Memory.Requests
import ElfBoot.Proofs.Settings.ReadBack
import ElfBoot.Proofs.Firmware.Ownership
import ElfBoot.Proofs.Load.Statuses
import ElfBoot.Proofs.Firmware.Statuses
import ElfBoot.Proofs.Firmware.WholeFile
import ElfBoot.Proofs.Host.ArenaInvariant
import ElfBoot.Proofs.Load.Slots
