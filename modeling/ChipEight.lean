import ChipEight.Main
import ChipEight.Playground.Session
import ChipEight.Proofs.Events
import ChipEight.Proofs.Execution
import ChipEight.Proofs.Range
import ChipEight.Proofs.Decoding
import ChipEight.Proofs.MemoryRing
import ChipEight.Proofs.StackFaults
import ChipEight.Proofs.KeyWait
import ChipEight.Proofs.Blit
import ChipEight.Proofs.History
import ChipEight.Proofs.CallMatching
import ChipEight.Proofs.Font
import ChipEight.Proofs.Standstill
import ChipEight.Proofs.KeyFeed
import ChipEight.Proofs.Timers
import ChipEight.Proofs.Redraw
import ChipEight.Proofs.TraceHistory
import ChipEight.Proofs.Footprint
import ChipEight.Proofs.HexDigits
import ChipEight.Proofs.HexGrammar
import ChipEight.Proofs.HexLayout
import ChipEight.Proofs.Assembly
import ChipEight.Proofs.Listing
import ChipEight.Proofs.ListedTrace
import ChipEight.Proofs.Reentry
import ChipEight.Proofs.Turns
import ChipEight.Proofs.Coupling
import ChipEight.Proofs.Inputs
import ChipEight.Proofs.IndexWrap
import ChipEight.Proofs.Tracing
import ChipEight.Proofs.Sessions
import ChipEight.Proofs.Outcome
import ChipEight.Proofs.OutputOptions
import ChipEight.Proofs.RegisterTransfer
import ChipEight.Proofs.Arithmetic
import ChipEight.Proofs.ProgramCounter
import ChipEight.Proofs.SpriteAlgebra
import ChipEight.Proofs.KeyLists
import ChipEight.Proofs.Dispatch
import ChipEight.Proofs.Stepping
import ChipEight.Proofs.KeyEcho
import ChipEight.Proofs.RandomDots
import ChipEight.Proofs.ScreenText
import ChipEight.Proofs.InitialImage
import ChipEight.Proofs.TraceReport
import ChipEight.Proofs.TraceReplay
import ChipEight.Proofs.DecimalStore
import ChipEight.Proofs.LastWrite
