import Mp3Kernel.Lib.Strings
import Mp3Kernel.FileSystem.Basic
import Mp3Kernel.FileSystem.Drivers
import Mp3Kernel.FileSystem.ReadOnly
import Mp3Kernel.Console.Keyboard
import Mp3Kernel.Console.LineEditor
import Mp3Kernel.FileSystem.Blocks
import Mp3Kernel.Process.Descriptors
import Mp3Kernel.Process.Discipline
import Mp3Kernel.FileSystem.Header
import Mp3Kernel.Process.Lifecycle
import Mp3Kernel.Process.Pairing
import Mp3Kernel.Process.Reading
import Mp3Kernel.Console.BufferBounds
import Mp3Kernel.Console.Layout
import Mp3Kernel.Console.Modifiers
import Mp3Kernel.Console.Sheet
import Mp3Kernel.Console.VideoBounds
import Mp3Kernel.Devices.I8259
import Mp3Kernel.Devices.Rtc
import Mp3Kernel.FileSystem.Bytes
import Mp3Kernel.Process.RtcDivisor
import Mp3Kernel.FileSystem.Accesses
import Mp3Kernel.FileSystem.Directory
import Mp3Kernel.Process.Executables
import Mp3Kernel.Process.Loading
import Mp3Kernel.Process.Opening
import Mp3Kernel.Process.Closing
import Mp3Kernel.Process.DescriptorRange
import Mp3Kernel.Process.Dispatch
import Mp3Kernel.Console.Backspace
import Mp3Kernel.FileSystem.Listing
import Mp3Kernel.FileSystem.Entries
import Mp3Kernel.Process.Frequency
import Mp3Kernel.Process.Isolation
import Mp3Kernel.Process.SystemCall
import Mp3Kernel.Lib.Format
import Mp3Kernel.Devices.Rate
import Mp3Kernel.Lib.Memcpy
import Mp3Kernel.Lib.Memset
import Mp3Kernel.Lib.Memmove
import Mp3Kernel.Boot.SystemCalls
import Mp3Kernel.Devices.Service
